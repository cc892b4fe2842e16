/-!
# Texts in quotes

A text is put in quotes for a reader who must see every character: quotes and backslashes get a
backslash, line breaks and tabs have letters, and characters without a shape of their own are
written by their number.

## Main definitions

* `Text.hasShape` : the character can be seen as it is.
* `Text.inQuotes` : a text in quotes.
-/

namespace Reclaim.Text

/-- Ranges of characters that have no shape: controls, joiners and marks of direction, marks that
combine with the character in front, separators, private characters and those that are none. -/
def shapeless : List (Nat × Nat) := [
    (0x00, 0x1F), (0x7F, 0x9F), (0xA0, 0xA0), (0xAD, 0xAD), (0x300, 0x36F), (0x483, 0x489),
    (0x591, 0x5BD), (0x600, 0x605), (0x610, 0x61A), (0x64B, 0x65F), (0x1680, 0x1680),
    (0x180E, 0x180E), (0x1AB0, 0x1ACE), (0x1DC0, 0x1DFF), (0x2000, 0x200F), (0x2028, 0x202F),
    (0x205F, 0x2064), (0x2066, 0x206F), (0x20D0, 0x20F0), (0x3000, 0x3000), (0x302A, 0x302F),
    (0x3099, 0x309A), (0xE000, 0xF8FF), (0xFE00, 0xFE0F), (0xFE20, 0xFE2F), (0xFEFF, 0xFEFF),
    (0xFFF0, 0xFFFB), (0xFFFE, 0xFFFF), (0x1F3FB, 0x1F3FF), (0xE0000, 0x10FFFF)]

/-- The character can be seen as it is. -/
def hasShape (c : Char) : Bool :=
  !shapeless.any fun (low, high) => low ≤ c.toNat && c.toNat ≤ high

/-- A character inside quotes. -/
def quotedChar (c : Char) : List Char :=
  if c = '\x22' ∨ c = '\\' then ['\\', c]
  else if c = '\x00' then ['\\', '0']
  else if c = '\t' then ['\\', 't']
  else if c = '\r' then ['\\', 'r']
  else if c = '\n' then ['\\', 'n']
  else if hasShape c then [c]
  else ['\\', 'u', '\x7b'] ++ (Nat.toDigits 16 c.toNat) ++ ['\x7d']

/-- A text in quotes. -/
def inQuotes (text : String) : String :=
  "\"" ++ String.ofList (text.toList.flatMap quotedChar) ++ "\""

end Reclaim.Text
