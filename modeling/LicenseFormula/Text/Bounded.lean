import LicenseFormula.Text.Utf8

/-!
# Writing with limited room

A text may be handed over in pieces to a place that has room for so many bytes.  Of the first
piece that is too long as much is written as fits, and nothing after it.

* `Text.fill room pieces`  what writing the pieces leaves in the place;
* `Text.Overflow`          what the place holds when the pieces do not fit.
-/

namespace LicenseFormula.Text

/-- the pieces did not fit -/
structure Overflow where
  /-- the bytes written, which fill the place -/
  held : List UInt8
deriving DecidableEq, Repr

/-- what is said when the pieces do not fit -/
def Overflow.message (_ : Overflow) : String := "failed to write whole buffer"

/-- the bytes that are in a place after the pieces have been written to it in turn -/
def fill (room : Nat) : List String → Except Overflow (List UInt8)
  | [] => .ok []
  | piece :: pieces =>
    let bs := bytes piece
    if bs.length ≤ room then
      match fill (room - bs.length) pieces with
      | .ok behind => .ok (bs ++ behind)
      | .error e => .error ⟨bs ++ e.held⟩
    else .error ⟨bs.take room⟩

end LicenseFormula.Text
