import LicenseFormula.Formula.Basic
import LicenseFormula.Text.Bounded
import LicenseFormula.Text.JsonString

/-!
# Formulas as JSON

A formula is an object with the list of its nodes.  A node has the operand, an object that says
whether it is a name or a group, and the connective behind it, `null` for the last one.  There
are no blanks, and the keys come in a fixed order.

* `Formula.jsonPieces f`    the text of `f` in pieces, as they are written one after the other;
* `Formula.json f`          the text;
* `Formula.writeJson room f` the text written to a place with room for so many bytes.

`jsonOnto` puts the pieces in front of others, so that nested groups are not copied.
-/

namespace LicenseFormula

mutual

/-- the pieces of the nodes of a formula in front of others -/
def Formula.jsonNodesOnto : Formula → List String → List String
  | .last a, behind => "\x7b\"term\":" :: a.jsonOnto (",\"operator\":null\x7d" :: behind)
  | .join a c next, behind =>
    "\x7b\"term\":" ::
      a.jsonOnto (",\"operator\":\"" :: c.text :: "\"\x7d," :: next.jsonNodesOnto behind)

/-- the pieces of an operand in front of others -/
def Operand.jsonOnto : Operand → List String → List String
  | .name text, behind => "\x7b\"leaf\":" :: Text.jsonString text ++ "\x7d" :: behind
  | .group inner, behind =>
    "\x7b\"group\":\x7b\"nodes\":[" :: inner.jsonNodesOnto ("]\x7d\x7d" :: behind)

end

namespace Formula

/-- the pieces of a formula in front of others -/
def jsonOnto (f : Formula) (behind : List String) : List String :=
  "\x7b\"nodes\":[" :: f.jsonNodesOnto ("]\x7d" :: behind)

def jsonPieces (f : Formula) : List String := f.jsonOnto []

def json (f : Formula) : String := String.join f.jsonPieces

/-- the bytes in a place of so much room after the formula has been written to it -/
def writeJson (room : Nat) (f : Formula) : Except Text.Overflow (List UInt8) :=
  Text.fill room f.jsonPieces

end Formula

end LicenseFormula
