/-!
# Brackets

A formula is put into a group by a pair of brackets of one of two styles.  A group is closed by
the style that opened it, and is always written back with parentheses.

* `Bracket.opener b`, `Bracket.closer b` the two characters of a style;
* `Bracket.name b`                       what a style is called in messages.
-/

namespace LicenseFormula

/-- the style of a pair of brackets -/
inductive Bracket where
  | paren
  | brace
deriving DecidableEq, Repr

namespace Bracket

/-- the character that opens a group -/
def opener : Bracket → Char
  | paren => '('
  | brace => '{'

/-- the character that closes a group -/
def closer : Bracket → Char
  | paren => ')'
  | brace => '}'

/-- what the style is called in messages -/
def name : Bracket → String
  | paren => "Paren"
  | brace => "Brace"

end Bracket

end LicenseFormula
