/-!
# Connectives

The two ways of joining operands.  A connective is written in capitals and read in any casing of
its ASCII letters.

* `Connective.text c`       the written form;
* `Connective.ofText? s`    the connective that `s` spells, if any;
* `Connective.ofText?_eq_some_iff` a connective is spelled by its written form, letter by letter;
* `Connective.ofText?_text` every written form is read back.
-/

namespace LicenseFormula

/-- how an operand is joined to the one after it -/
inductive Connective where
  | and
  | or
deriving DecidableEq, Repr

namespace Connective

def text : Connective → String
  | and => "AND"
  | or => "OR"

/-- the connective that `s` spells, whatever the casing of its ASCII letters -/
def ofText? (s : String) : Option Connective :=
  match s.toList.map Char.toUpper with
  | ['A', 'N', 'D'] => some and
  | ['O', 'R'] => some or
  | _ => none

theorem text_ne_empty (c : Connective) : c.text ≠ "" := by
  cases c <;> decide

theorem ofText?_eq_some_iff {s : String} {c : Connective} :
    ofText? s = some c ↔ s.toList.map Char.toUpper = c.text.toList := by
  unfold ofText?
  split
  · next hs =>
    rw [hs]
    cases c <;> decide
  · next hs =>
    rw [hs]
    cases c <;> decide
  · next hand hor =>
    refine iff_of_false (Option.some_ne_none c).symm ?_
    intro hs
    cases c with
    | and => exact hand hs
    | or => exact hor hs

theorem ofText?_text (c : Connective) : ofText? c.text = some c := by
  cases c <;> rfl

instance : ToString Connective := ⟨text⟩

end Connective

end LicenseFormula
