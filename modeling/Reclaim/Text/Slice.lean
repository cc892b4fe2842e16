/-!
# Pieces of a text between byte offsets

Where something stands in a text is told by the number of bytes in front of it.  A search compares
bytes, and a piece is cut out between two such offsets.  There is a piece only if neither offset is
inside a character or behind the end; a program that asks for any other piece is stopped.

## Main definitions

* `Text.findBytes?` : where a mark stands first.
* `Text.slice` : the piece between two offsets.
-/

namespace Reclaim.Text

/-- Two offsets between which a text has no piece. -/
structure TornSlice where
  start : Nat
  stop : Nat
  deriving DecidableEq, Repr

/-- The bytes of the mark stand at an offset of the text. -/
def standsAt (mark text : String) (offset : Nat) : Bool :=
  @decide (text.toByteArray.extract offset (offset + mark.utf8ByteSize) = mark.toByteArray)
    (ByteArray.instDecidableEq ..)

/-- The first offset at which the mark stands in the text. -/
def findBytes? (mark text : String) : Option Nat :=
  (List.range (text.utf8ByteSize + 1 - mark.utf8ByteSize)).find? (standsAt mark text)

/-- The piece of a text between two offsets. -/
def slice (text : String) (start stop : Nat) : Except TornSlice String :=
  if h : start ≤ stop ∧
      String.Pos.Raw.IsValid text ⟨start⟩ ∧ String.Pos.Raw.IsValid text ⟨stop⟩ then
    .ok (String.extract (String.Pos.mk ⟨start⟩ h.2.1) (String.Pos.mk ⟨stop⟩ h.2.2))
  else .error ⟨start, stop⟩

end Reclaim.Text
