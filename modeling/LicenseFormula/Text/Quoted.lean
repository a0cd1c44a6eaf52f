import LicenseFormula.Text.Hex
import LicenseFormula.Text.Unprintable

/-!
# Quoted text

Messages show a text between double quotes in such a way that it is seen where it ends and what
it holds: quotes, backslashes and the usual control characters have short escapes, and every
other character that shows nothing is given by its code point.

* `Text.showChar c` how one character is shown;
* `Text.quoted s`   the quoted form of `s`.
-/

namespace LicenseFormula.Text

/-- how one character is shown between the quotes -/
def showChar (c : Char) : String :=
  match c with
  | '\x00' => "\\0"
  | '\t' => "\\t"
  | '\r' => "\\r"
  | '\n' => "\\n"
  | '\"' => "\\\""
  | '\\' => "\\\\"
  | c => if isUnprintable c then "\\u\x7b" ++ hex c.toNat ++ "\x7d" else c.toString

def quoted (s : String) : String := "\"" ++ String.join (s.toList.map showChar) ++ "\""

end LicenseFormula.Text
