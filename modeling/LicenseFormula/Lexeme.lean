import LicenseFormula.ByteClass
import LicenseFormula.Token

/-!
# Lexemes

A lexeme is a run of word bytes, a bracket or a single stray byte.  Between them the lexemes of a
text hold all of its bytes but the blank ones.

* `Lexeme.bytes l` the bytes that the lexeme is made of;
* `Lexeme.text l`  these bytes as characters, each the one of that code point;
* `Lexeme.kind l`  what the lexeme stands for;
* `Lexeme.token l` the kind with the text.
-/

namespace LicenseFormula

/-- a unit of a text -/
inductive Lexeme where
  | run (bytes : List UInt8)
  | opening (bracket : Bracket)
  | closing (bracket : Bracket)
  | stray (byte : UInt8)
deriving DecidableEq, Repr

namespace Lexeme

def bytes : Lexeme → List UInt8
  | run bs => bs
  | opening b => [b.opener.toUInt8]
  | closing b => [b.closer.toUInt8]
  | stray byte => [byte]

/-- the bytes of the lexeme as characters -/
def text (l : Lexeme) : String := String.ofList (l.bytes.map Char.ofUInt8)

def kind (l : Lexeme) : Token.Kind :=
  match l with
  | run _ => Token.Kind.ofWord l.text
  | opening b => .opening b
  | closing b => .closing b
  | stray _ => .stray

def token (l : Lexeme) : Token := ⟨l.kind, l.text⟩

theorem text_opening (b : Bracket) : (opening b).text = b.opener.toString := by
  cases b <;> rfl

theorem text_closing (b : Bracket) : (closing b).text = b.closer.toString := by
  cases b <;> rfl

theorem kind_ne_finish (l : Lexeme) : l.kind ≠ .finish := by
  cases l with
  | run bs => exact Token.Kind.ofWord_ne_finish _
  | opening b => simp [kind]
  | closing b => simp [kind]
  | stray byte => simp [kind]

end Lexeme

end LicenseFormula
