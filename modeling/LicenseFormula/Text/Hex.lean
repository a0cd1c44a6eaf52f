/-!
# Hexadecimal digits

Lower-case hexadecimal text of numbers.

* `Text.hex n`     the digits of `n`, without leading zeros;
* `Text.hexByte b` the two digits of a byte.
-/

namespace LicenseFormula.Text

def hex (n : Nat) : String := String.ofList (Nat.toDigits 16 n)

def hexByte (b : UInt8) : String :=
  String.ofList [Nat.digitChar (b.toNat / 16), Nat.digitChar (b.toNat % 16)]

end LicenseFormula.Text
