import LicenseFormula.Text.Hex

/-!
# JSON strings

A text as a JSON string: quotes, backslashes and control characters are escaped, by a short
escape where JSON has one; every other character stands for itself.

* `Text.jsonChar c`   how one character is written;
* `Text.jsonString s` the pieces of the string of `s`, quotes included.
-/

namespace LicenseFormula.Text

/-- how one character is written between the quotes -/
def jsonChar (c : Char) : String :=
  match c with
  | '\"' => "\\\""
  | '\\' => "\\\\"
  | '\x08' => "\\b"
  | '\x0c' => "\\f"
  | '\n' => "\\n"
  | '\r' => "\\r"
  | '\t' => "\\t"
  | c => if c.toNat < 0x20 then "\\u00" ++ hexByte c.toUInt8 else c.toString

/-- the pieces of the string of a text -/
def jsonString (s : String) : List String := "\"" :: s.toList.map jsonChar ++ ["\""]

end LicenseFormula.Text
