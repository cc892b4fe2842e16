/-!
# Blank characters

Texts are trimmed of the characters that Unicode calls white space, which are more than the ASCII
ones.

## Main definitions

* `Text.isBlank` : the property of a character.
* `Text.trim` : a text without the blanks at its two ends.
* `Text.cutAt?` : cutting a text at the first occurrence of another.
-/

namespace Reclaim.Text

/-- The character is Unicode white space. -/
def isBlank (c : Char) : Bool :=
  let n := c.toNat
  (0x09 ≤ n && n ≤ 0x0D) || n == 0x20 || n == 0x85 || n == 0xA0 || n == 0x1680 ||
    (0x2000 ≤ n && n ≤ 0x200A) || n == 0x2028 || n == 0x2029 || n == 0x202F || n == 0x205F ||
    n == 0x3000

/-- A list of characters without those at its end that satisfy `drop`. -/
def dropEndWhile (drop : Char → Bool) (chars : List Char) : List Char :=
  (chars.reverse.dropWhile drop).reverse

/-- A text without the blanks at its two ends. -/
def trimChars (chars : List Char) : List Char :=
  dropEndWhile isBlank (chars.dropWhile isBlank)

@[inherit_doc trimChars]
def trim (text : String) : String :=
  String.ofList (trimChars text.toList)

/-- A text without the characters at its end that satisfy `drop`. -/
def trimEnd (drop : Char → Bool) (text : String) : String :=
  String.ofList (dropEndWhile drop text.toList)

/-- The rest of a list behind a given beginning. -/
def after? : List Char → List Char → Option (List Char)
  | [], chars => some chars
  | _ :: _, [] => none
  | m :: mark, c :: chars => if m = c then after? mark chars else none

/-- The part of a text in front of the first occurrence of `mark`, and the part behind it. -/
def cutAt? (mark : List Char) : List Char → Option (List Char × List Char)
  | [] => (after? mark []).map fun rest => ([], rest)
  | c :: chars =>
    match after? mark (c :: chars) with
    | some rest => some ([], rest)
    | none => (cutAt? mark chars).map fun (front, rest) => (c :: front, rest)

/-- The text occurs in another. -/
def occursIn (mark text : String) : Bool :=
  (cutAt? mark.toList text.toList).isSome

end Reclaim.Text
