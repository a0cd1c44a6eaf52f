import LicenseFormula.Formula.Text
import LicenseFormula.Symbol

/-!
# Tidy rows

A list of symbols is a tidy row when its operands, the stretches between connectives, are each
either a run of words, possibly of none, or one group alone, whose inside is tidy again.  These
are the rows of which nothing is dropped when a formula is assembled.

* `Symbol.text x`     how a symbol is written;
* `Symbol.uniform x`  the symbol with parentheses for any bracket;
* `Tidy xs`, `TidyOperand xs` the tidy rows, and what stands between their connectives.
-/

namespace LicenseFormula

namespace Symbol

def text : Symbol → String
  | word text => text
  | connective c => c.text
  | opening _ => "("
  | closing _ => ")"

/-- the symbol with parentheses for any bracket -/
def uniform : Symbol → Symbol
  | opening _ => opening .paren
  | closing _ => closing .paren
  | x => x

theorem text_uniform (x : Symbol) : x.uniform.text = x.text := by
  cases x <;> rfl

theorem uniform_uniform (x : Symbol) : x.uniform.uniform = x.uniform := by
  cases x <;> rfl

end Symbol

mutual

/-- the rows of which nothing is dropped -/
inductive Tidy : List Symbol → Prop where
  | last {xs : List Symbol} : TidyOperand xs → Tidy xs
  | join {xs next : List Symbol} (c : Connective) :
    TidyOperand xs → Tidy next → Tidy (xs ++ .connective c :: next)

/-- a run of words, or one group alone -/
inductive TidyOperand : List Symbol → Prop where
  | words (ws : List String) : TidyOperand (ws.map .word)
  | group (b : Bracket) {inside : List Symbol} :
    Tidy inside → TidyOperand (.opening b :: inside ++ [.closing b])

end

end LicenseFormula
