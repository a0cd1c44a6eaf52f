import LicenseFormula.Bracket

/-!
# Balanced brackets

The brackets of a text, all else left out, are balanced when every group that is opened is closed
by its own style, groups lie inside one another or apart, and nothing is closed that is not open.

* `Edge`, `edgesOf s` a bracket that opens or closes, and those of a text;
* `Balanced es`       the words of balanced brackets.
-/

namespace LicenseFormula

/-- a bracket that opens or closes a group -/
inductive Edge where
  | opening (bracket : Bracket)
  | closing (bracket : Bracket)
deriving DecidableEq, Repr

/-- the bracket that a character is, if any -/
def Edge.ofChar? : Char → Option Edge
  | '(' => some (.opening .paren)
  | ')' => some (.closing .paren)
  | '{' => some (.opening .brace)
  | '}' => some (.closing .brace)
  | _ => none

def edgesOf (s : String) : List Edge := s.toList.filterMap Edge.ofChar?

/-- the words of balanced brackets -/
inductive Balanced : List Edge → Prop where
  | nil : Balanced []
  | group (b : Bracket) {inside behind : List Edge} :
    Balanced inside → Balanced behind →
      Balanced (.opening b :: inside ++ .closing b :: behind)

theorem Edge.ofChar?_closer (b : Bracket) : Edge.ofChar? b.closer = some (.closing b) := by
  cases b <;> rfl

theorem edgesOf_append (s t : String) : edgesOf (s ++ t) = edgesOf s ++ edgesOf t := by
  simp [edgesOf]

theorem Balanced.append {xs ys : List Edge} (hx : Balanced xs) (hy : Balanced ys) :
    Balanced (xs ++ ys) := by
  induction hx with
  | nil => exact hy
  | group b hi _ _ ih => simpa using Balanced.group b hi ih

end LicenseFormula
