import LicenseFormula.Bracket

/-!
# Classes of bytes

Every byte of a text is of exactly one class: it separates lexemes (`blank`), belongs to a word,
opens or closes a group, or has no place in a formula (`stray`).  All bytes of a character
outside ASCII are stray.

* `ByteClass.of b` the class of `b`;
* `isWordByte b`   whether words are made of `b`: ASCII letters, digits and `. _ + -`.
-/

namespace LicenseFormula

/-- what a byte is to a formula -/
inductive ByteClass where
  | blank
  | word
  | opening (bracket : Bracket)
  | closing (bracket : Bracket)
  | stray
deriving DecidableEq, Repr

def ByteClass.of (b : UInt8) : ByteClass :=
  match Char.ofUInt8 b with
  | ' ' | '\t' | '\n' | '\r' => .blank
  | '.' | '_' | '+' | '-' => .word
  | '(' => .opening .paren
  | ')' => .closing .paren
  | '{' => .opening .brace
  | '}' => .closing .brace
  | c => if c.isAlphanum then .word else .stray

/-- whether words are made of the byte -/
def isWordByte (b : UInt8) : Bool := ByteClass.of b = .word

theorem isWordByte_iff {b : UInt8} : isWordByte b = true ↔ ByteClass.of b = .word := by
  simp [isWordByte]

end LicenseFormula
