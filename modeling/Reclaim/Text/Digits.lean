/-!
# Digits

Numbers are written with digits of a base up to 16, in small or capital letters.

## Main definitions

* `Text.isHexDigit`, `Text.hexValue` : a digit of base 16.
* `Text.numberOf` : the number that digits stand for.
-/

namespace Reclaim.Text

/-- The value of a hexadecimal digit. -/
def hexValue (c : Char) : Nat :=
  if c.isDigit then c.toNat - '0'.toNat else c.toLower.toNat - 'a'.toNat + 10

/-- The character is a hexadecimal digit. -/
def isHexDigit (c : Char) : Bool :=
  c.isDigit || (c.toLower.toNat ≥ 'a'.toNat && c.toLower.toNat ≤ 'f'.toNat)

/-- The number that digits of a base stand for. -/
def numberOf (base : Nat) (digits : List Char) : Nat :=
  digits.foldl (fun n c => n * base + hexValue c) 0

end Reclaim.Text
