import LicenseFormula.ByteClass
import LicenseFormula.Formula.Text
import LicenseFormula.Text.Utf8

/-!
# Canonical formulas

A formula is canonical when every name in it, at any depth, is a line of plain words, possibly of
none.  A plain word is what a text can hold as a word: word bytes only, at least one, and not the
spelling of a connective.

* `IsPlainWord w`           `w` is a plain word;
* `IsCanonicalName text`    `text` is a line of plain words;
* `Formula.IsCanonical f`   all names of `f` are canonical.
-/

namespace LicenseFormula

/-- a word that a name can be made of -/
structure IsPlainWord (w : String) : Prop where
  ne_empty : w ≠ ""
  wordBytes : ∀ b ∈ Text.bytes w, isWordByte b = true
  noConnective : Connective.ofText? w = none

/-- a line of plain words -/
def IsCanonicalName (text : String) : Prop :=
  ∃ ws : List String, (∀ w ∈ ws, IsPlainWord w) ∧ text = lineOf ws

/-- a formula all of whose names are lines of plain words -/
def Formula.IsCanonical (f : Formula) : Prop := ∀ text ∈ f.names, IsCanonicalName text

end LicenseFormula
