import LicenseFormula.Connective
import LicenseFormula.Bracket

/-!
# Tokens

A token is a kind with a literal.  Any literal may go with any kind; the tokens of a text carry
the text they were read from.

* `Token.Kind.ofWord w` the kind of a word: a connective if `w` spells one, else a plain word;
* `Token.Kind.label k`  what a kind is called in messages;
* `Token.Kind.uniform k` the kind when the style of brackets does not matter;
* `Token.finish`        what follows the last token of every text.
-/

namespace LicenseFormula

/-- what a token stands for -/
inductive Token.Kind where
  | word
  | connective (c : Connective)
  | opening (bracket : Bracket)
  | closing (bracket : Bracket)
  /-- a byte that has no place in a formula -/
  | stray
  | finish
deriving DecidableEq, Repr

def Token.Kind.ofWord (word : String) : Token.Kind :=
  match Connective.ofText? word with
  | some c => .connective c
  | none => .word

def Token.Kind.label : Token.Kind → String
  | .word => "IDENT"
  | .connective c => c.text
  | .opening b => b.opener.toString
  | .closing b => b.closer.toString
  | .stray => "ILLEGAL"
  | .finish => "EOF"

/-- the kind with parentheses for any bracket -/
def Token.Kind.uniform : Token.Kind → Token.Kind
  | opening _ => opening .paren
  | closing _ => closing .paren
  | kind => kind

/-- a kind with the text it was read from -/
structure Token where
  kind : Token.Kind
  literal : String
deriving DecidableEq, Repr

namespace Token

/-- what follows the last token of every text -/
def finish : Token := ⟨.finish, "\x00"⟩

/-- whether the token ends its text, by its kind alone -/
def isFinish (t : Token) : Bool := t.kind = .finish

theorem Kind.ofWord_ne_finish (w : String) : Kind.ofWord w ≠ .finish := by
  unfold Kind.ofWord
  split <;> simp

theorem Kind.ofWord_text (c : Connective) : Kind.ofWord c.text = .connective c := by
  simp [Kind.ofWord, Connective.ofText?_text]

end Token

end LicenseFormula
