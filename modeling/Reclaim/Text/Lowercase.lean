import Reclaim.Text.CaseTable

/-!
# Lower-casing

Names of applications are compared without regard to case, by their full Unicode lower-case forms.
Two characters need care: `İ` becomes two, and `Σ` becomes `ς` at the end of a word.  The
plain comparison of ASCII letters is here as well.

## Main definitions

* `Text.lower` : the lower-case form of a text.
* `Text.sameAscii` : equality up to the case of ASCII letters.
-/

namespace Reclaim.Text

/-- The lower-case form of a character wherever it stands. -/
def lowerChar (c : Char) : List Char :=
  let n := c.toNat
  if n < 0x80 then [c.toLower]
  else if n = 0x130 then ['i', Char.ofNat 0x307]
  else match lowerRuns.find? (·.holds n) with
    | some run => [Char.ofNat (n + run.shift).toNat]
    | none => [c]

/-- The nearest character that counts has a case. -/
def meetsCased (chars : List Char) : Bool :=
  match chars.dropWhile fun c => inRanges ignorableRanges c.toNat with
  | [] => false
  | c :: _ => inRanges casedRanges c.toNat

/-- The lower-case form of characters, given those in front of them from the last to the first. -/
def lowerFrom : List Char → List Char → List Char
  | _, [] => []
  | front, c :: chars =>
    let small :=
      if c = 'Σ' then if meetsCased front && !meetsCased chars then ['ς'] else ['σ']
      else lowerChar c
    small ++ lowerFrom (c :: front) chars

/-- The lower-case form of a text. -/
def lower (text : String) : String :=
  String.ofList (lowerFrom [] text.toList)

/-- The texts are equal up to the case of ASCII letters. -/
def sameAscii (a b : String) : Bool :=
  a.toList.map Char.toLower == b.toList.map Char.toLower

end Reclaim.Text
