import LicenseFormula.Cursor

/-!
# Symbols

The symbols of a text are its lexemes without the stray bytes, and without the casing in which a
connective was written.  They are all that a formula depends on.

* `Token.symbol? t`  what a token means to a formula, if anything;
* `Placed.symbol? p` the same for a lexeme in its place;
* `Cursor.symbols c` the symbols from a cursor on;
* `symbolsOf s`      the symbols of a text.
-/

namespace LicenseFormula

/-- what a token means to a formula -/
inductive Symbol where
  | word (text : String)
  | connective (c : Connective)
  | opening (bracket : Bracket)
  | closing (bracket : Bracket)
deriving DecidableEq, Repr

/-- what the token means to a formula; stray bytes and the end of a text mean nothing -/
def Token.symbol? (t : Token) : Option Symbol :=
  match t.kind with
  | .word => some (.word t.literal)
  | .connective c => some (.connective c)
  | .opening b => some (.opening b)
  | .closing b => some (.closing b)
  | .stray => none
  | .finish => none

def Placed.symbol? (p : Placed) : Option Symbol := p.lexeme.token.symbol?

def Cursor.symbols (c : Cursor) : List Symbol := c.lexemes.filterMap Placed.symbol?

def symbolsOf (s : String) : List Symbol := (Cursor.ofString s).symbols

end LicenseFormula
