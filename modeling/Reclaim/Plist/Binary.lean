import Reclaim.Plist.Value
import Reclaim.Text.Lossy

/-!
# Binary property lists

The binary form is a table of objects with a trailer that tells where they begin.  Arrays and
dictionaries name their members by number; an object that would hold itself is refused.

## Main definitions

* `Plist.Binary.Trailer` : the end of a file, which describes the rest.
* `Plist.Binary.events?` : the events of a file.
-/

namespace Reclaim.Plist.Binary

/-- The first bytes of a binary property list. -/
def magic : List UInt8 := "bplist00".toUTF8.toList

/-- The bytes of the trailer at the end of a file. -/
def trailerSize : Nat := 32

/-- The number that `count` bytes stand for, the highest byte first; `none` beyond the end. -/
def word? (data : ByteArray) (start count : Nat) : Option Nat :=
  if start + count ≤ data.size then
    some ((data.extract start (start + count)).toList.foldl (fun n b => n * 256 + b.toNat) 0)
  else none

/-- The description of a file. -/
structure Trailer where
  /-- The bytes of an offset. -/
  offsetSize : Nat
  /-- The bytes of the number of an object. -/
  referenceSize : Nat
  objects : Nat
  /-- The number of the outermost object. -/
  top : Nat
  /-- Where the table of offsets begins. -/
  table : Nat
  /-- Where the trailer begins. -/
  start : Nat

/-- The sizes in which numbers are stored. -/
def isSize (n : Nat) : Bool :=
  n == 1 || n == 2 || n == 4 || n == 8

/-- The trailer of a file that is large enough to have one. -/
def trailer? (data : ByteArray) : Option Trailer := do
  if data.size < trailerSize then none
  let start := data.size - trailerSize
  let t : Trailer := {
    offsetSize := ← word? data (start + 6) 1
    referenceSize := ← word? data (start + 7) 1
    objects := ← word? data (start + 8) 8
    top := ← word? data (start + 16) 8
    table := ← word? data (start + 24) 8
    start }
  if isSize t.offsetSize && isSize t.referenceSize && t.table + t.objects * t.offsetSize ≤ start
  then some t else none

/-- The numbers of a size that stand one after the other in front of the trailer. -/
def words? (data : ByteArray) (t : Trailer) (start size count : Nat) : Option (List Nat) :=
  if start + count * size ≤ t.start then
    (List.range count).mapM fun i => word? data (start + i * size) size
  else none

/-- The length of an object and where its content begins; long lengths have bytes of their own. -/
def length? (data : ByteArray) (offset short : Nat) : Option (Nat × Nat) := do
  if short = 15 then
    let marker ← word? data (offset + 1) 1
    let size := Nat.pow 2 (marker % 4)
    return (← word? data (offset + 2) size, offset + 2 + size)
  else return (short, offset + 1)

/-- A text of units of sixteen bits. -/
def textOfUnits? : List Nat → Option (List Char)
  | [] => some []
  | high :: rest =>
    if 0xD800 ≤ high ∧ high < 0xDC00 then
      match rest with
      | low :: rest =>
        if 0xDC00 ≤ low ∧ low < 0xE000 then
          (textOfUnits? rest).map
            (Char.ofNat (0x10000 + (high - 0xD800) * 0x400 + (low - 0xDC00)) :: ·)
        else none
      | [] => none
    else if 0xDC00 ≤ high ∧ high < 0xE000 then none
    else (textOfUnits? rest).map (Char.ofNat high :: ·)

/-- Bytes that lie in front of the trailer. -/
def slice? (data : ByteArray) (t : Trailer) (start count : Nat) : Option ByteArray :=
  if start + count ≤ t.start then some (data.extract start (start + count)) else none

/-- A double that is given by its bits is a number of seconds that a clock can show: it is finite
and below `2 ^ 63`. -/
def isClockTime (bits : Nat) : Bool :=
  bits / Nat.pow 2 52 % Nat.pow 2 11 < 1023 + 63

/-- The members of a dictionary in turn: a key, its value, the next key. -/
def alternate : List Nat → List Nat → List Nat
  | key :: keys, value :: values => key :: value :: alternate keys values
  | _, _ => []

/-- The events of an object, with at most `depth` objects inside each other.  `outer` are the
objects that it is in. -/
def objectEvents? (data : ByteArray) (t : Trailer) :
    (depth : Nat) → (outer : List Nat) → (object : Nat) → Option (List Event)
  | 0, _, _ => none
  | depth + 1, outer, object => do
    if t.objects ≤ object || outer.contains object then none
    let offset ← word? data (t.table + object * t.offsetSize) t.offsetSize
    if t.start ≤ offset then none
    let token ← word? data offset 1
    let short := token % 16
    let members (objects : List Nat) : Option (List Event) := do
      return (← objects.mapM (objectEvents? data t depth (object :: outer))).flatten
    match token / 16 with
    | 0 => if short = 8 ∨ short = 9 then return [.other] else none
    | 1 =>
      if short ≤ 4 then
        let n ← word? data (offset + 1) (Nat.pow 2 short)
        if n < Nat.pow 2 64 then return [.other] else none
      else none
    | 2 =>
      if short = 2 ∨ short = 3 then
        discard (word? data (offset + 1) (Nat.pow 2 short))
        return [.other]
      else none
    | 3 =>
      if short = 3 then
        let bits ← word? data (offset + 1) 8
        if isClockTime bits then return [.other] else none
      else none
    | 4 =>
      let (count, start) ← length? data offset short
      discard (slice? data t start count)
      return [.other]
    | 5 =>
      let (count, start) ← length? data offset short
      return [.text (← Text.decode? (← slice? data t start count))]
    | 6 =>
      let (count, start) ← length? data offset short
      let chars ← textOfUnits? (← words? data t start 2 count)
      return [.text (String.ofList chars)]
    | 8 =>
      if short < 8 then
        discard (word? data (offset + 1) (short + 1))
        return [.other]
      else none
    | 10 =>
      let (count, start) ← length? data offset short
      let inner ← members (← words? data t start t.referenceSize count)
      return .openArray :: (inner ++ [.close])
    | 13 =>
      let (count, start) ← length? data offset short
      let keys ← words? data t start t.referenceSize count
      let values ← words? data t (start + count * t.referenceSize) t.referenceSize count
      let inner ← members (alternate keys values)
      return .openDictionary :: (inner ++ [.close])
    | _ => none

/-- The events of a file. -/
def events? (data : ByteArray) : Option (List Event) := do
  let t ← trailer? data
  objectEvents? data t (t.objects + 1) [] t.top

end Reclaim.Plist.Binary
