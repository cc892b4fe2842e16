import Mathlib
import Reclaim.Proofs.Text.Cutting
import Reclaim.Text.Slice

/-!
# Bytes and characters of a text

A search for a mark compares bytes and a piece of a text lies between two byte offsets, but a text
is a list of characters.  The bytes of a mark that is not empty are a whole number of characters,
and they can only stand where characters begin and end.  So the first place in bytes is the first
place in characters, and the pieces in front of a mark and behind it exist.

## Main results

* `Text.standsAt_iff` : where the bytes of a mark stand.
* `Text.findBytes?_eq_map` : the search in bytes is the search in characters.
* `Text.slice_append` : the piece between two texts.
* `Text.slice_before_mark`, `Text.slice_behind_mark`, `Text.slice_between_marks` : the pieces beside
  the marks that were found.
-/

namespace Reclaim.Text

variable {mark text : String} {offset start stop : Nat}

/-! ### Pieces -/

theorem extract_append (front piece rest : String) :
    (front ++ piece ++ rest).toByteArray.extract front.utf8ByteSize
      (front.utf8ByteSize + piece.utf8ByteSize) = piece.toByteArray := by
  have hback := ByteArray.extract_append_size_add (a := front.toByteArray)
    (b := piece.toByteArray ++ rest.toByteArray) (i := 0) (j := piece.utf8ByteSize)
  rw [Nat.add_zero] at hback
  rw [String.append_assoc, String.toByteArray_append, String.toByteArray_append]
  exact hback.trans (ByteArray.extract_append_eq_left rfl)

/-- The piece between two texts. -/
theorem slice_append (front piece rest : String) :
    slice (front ++ piece ++ rest) front.utf8ByteSize (front.utf8ByteSize + piece.utf8ByteSize) =
      .ok piece := by
  have hstart : String.Pos.Raw.IsValid (front ++ piece ++ rest) ⟨front.utf8ByteSize⟩ :=
    String.Pos.Raw.isValid_iff_exists_append.mpr
      ⟨front, piece ++ rest, String.append_assoc, rfl⟩
  have hstop : String.Pos.Raw.IsValid (front ++ piece ++ rest)
      ⟨front.utf8ByteSize + piece.utf8ByteSize⟩ := by
    refine String.Pos.Raw.isValid_iff_exists_append.mpr ⟨front ++ piece, rest, rfl, ?_⟩
    rw [← String.utf8ByteSize_append]
    rfl
  rw [slice, dif_pos ⟨Nat.le_add_right _ _, hstart, hstop⟩, Except.ok.injEq,
    ← String.toByteArray_inj, String.toByteArray_extract]
  exact extract_append front piece rest

theorem slice_front (piece rest : String) :
    slice (piece ++ rest) 0 piece.utf8ByteSize = .ok piece := by
  have h := slice_append "" piece rest
  rwa [String.empty_append, String.utf8ByteSize_empty, Nat.zero_add] at h

theorem slice_back (front piece : String) :
    slice (front ++ piece) front.utf8ByteSize (front ++ piece).utf8ByteSize = .ok piece := by
  have h := slice_append front piece ""
  rwa [String.append_empty, ← String.utf8ByteSize_append] at h

/-- Offsets between characters cut a text in three. -/
theorem exists_append_of_isValid (hle : start ≤ stop)
    (hstart : String.Pos.Raw.IsValid text ⟨start⟩) (hstop : String.Pos.Raw.IsValid text ⟨stop⟩) :
    ∃ front piece rest, text = front ++ piece ++ rest ∧ start = front.utf8ByteSize ∧
      stop = front.utf8ByteSize + piece.utf8ByteSize := by
  obtain ⟨front, behind, rfl, hfront⟩ := String.Pos.Raw.isValid_iff_exists_append.mp hstart
  obtain rfl : start = front.utf8ByteSize := congrArg String.Pos.Raw.byteIdx hfront
  rcases String.Pos.Raw.isValid_append.mp hstop with hinside | ⟨-, hbehind⟩
  · have hsame : stop = front.utf8ByteSize := Nat.le_antisymm hinside.le_utf8ByteSize hle
    exact ⟨front, "", behind, by rw [String.append_empty], rfl, hsame⟩
  · obtain ⟨piece, rest, rfl, hpiece⟩ := String.Pos.Raw.isValid_iff_exists_append.mp hbehind
    have hsize : stop - front.utf8ByteSize = piece.utf8ByteSize :=
      congrArg String.Pos.Raw.byteIdx hpiece
    exact ⟨front, piece, rest, String.append_assoc.symm, rfl, by omega⟩

/-! ### Marks -/

/-- The bytes of a mark stand in a text only where its characters do. -/
theorem standsAt_iff (hmark : mark ≠ "") :
    standsAt mark text offset = true ↔
      ∃ front rest, text = front ++ mark ++ rest ∧ offset = front.utf8ByteSize := by
  rw [standsAt, decide_eq_true_iff]
  constructor
  · intro hbytes
    have hpos : 0 < mark.utf8ByteSize :=
      Nat.pos_of_ne_zero (mt String.utf8ByteSize_eq_zero_iff.mp hmark)
    have hend : offset + mark.utf8ByteSize ≤ text.utf8ByteSize := by
      have hsize := congrArg ByteArray.size hbytes
      rw [ByteArray.size_extract] at hsize
      simp only [String.utf8ByteSize] at hpos hsize ⊢
      omega
    -- bytes that are a text begin and end between two characters
    have hvalid : String.Pos.Raw.IsValid text ⟨offset⟩ ∧
        String.Pos.Raw.IsValid text ⟨offset + mark.utf8ByteSize⟩ := by
      have hutf8 := mark.isValidUTF8
      rw [← hbytes] at hutf8
      refine ((String.Pos.Raw.isValidUTF8_extract_iff ⟨offset⟩ ⟨offset + mark.utf8ByteSize⟩
        (Nat.le_add_right _ _) hend).mp hutf8).resolve_left fun heq => ?_
      rw [String.Pos.Raw.mk.injEq] at heq
      omega
    obtain ⟨front, piece, rest, rfl, rfl, hstop⟩ :=
      exists_append_of_isValid (Nat.le_add_right _ _) hvalid.1 hvalid.2
    rw [hstop, extract_append, String.toByteArray_inj] at hbytes
    exact ⟨front, rest, by rw [hbytes], rfl⟩
  · rintro ⟨front, rest, rfl, rfl⟩
    exact extract_append front mark rest

/-! ### Cuts -/

section

variable {chars front rest : List Char} (hcut : cutAt? mark.toList chars = some (front, rest))

include hcut

theorem ofList_eq_of_cutAt? :
    String.ofList chars = String.ofList front ++ mark ++ String.ofList rest := by
  rw [(cutAt?_eq_some_iff.mp hcut).cut, String.ofList_append, String.ofList_append,
    String.ofList_toList]

theorem slice_before_mark :
    slice (String.ofList chars) 0 (String.ofList front).utf8ByteSize =
      .ok (String.ofList front) := by
  rw [ofList_eq_of_cutAt? hcut, String.append_assoc]
  exact slice_front (String.ofList front) (mark ++ String.ofList rest)

theorem slice_behind_mark :
    slice (String.ofList chars) ((String.ofList front).utf8ByteSize + mark.utf8ByteSize)
      (String.ofList chars).utf8ByteSize = .ok (String.ofList rest) := by
  rw [ofList_eq_of_cutAt? hcut, ← String.utf8ByteSize_append]
  exact slice_back (String.ofList front ++ mark) (String.ofList rest)

/-- The piece between a mark and the next one behind it. -/
theorem slice_between_marks {mark' : String} {content rest' : List Char}
    (hcut' : cutAt? mark'.toList rest = some (content, rest')) :
    slice (String.ofList chars) ((String.ofList front).utf8ByteSize + mark.utf8ByteSize)
      ((String.ofList front).utf8ByteSize + mark.utf8ByteSize +
        (String.ofList content).utf8ByteSize) = .ok (String.ofList content) := by
  have hchars : String.ofList chars = String.ofList front ++ mark ++ String.ofList content ++
      (mark' ++ String.ofList rest') := by
    rw [ofList_eq_of_cutAt? hcut, ofList_eq_of_cutAt? hcut']
    simp only [String.append_assoc]
  rw [hchars, ← String.utf8ByteSize_append]
  exact slice_append (String.ofList front ++ mark) _ _

end

/-- The search in bytes is the search in characters. -/
theorem findBytes?_eq_map (hmark : mark ≠ "") :
    findBytes? mark text =
      (cutAt? mark.toList text.toList).map fun (front, _) =>
        (String.ofList front).utf8ByteSize := by
  cases hcut : cutAt? mark.toList text.toList with
  | none =>
    rw [Option.map_none, findBytes?, List.find?_range_eq_none]
    intro i _
    rw [Bool.not_eq_true', Bool.eq_false_iff, Ne, standsAt_iff hmark]
    rintro ⟨front, rest, rfl, -⟩
    have hsome : (cutAt? mark.toList (front ++ mark ++ rest).toList).isSome = true :=
      isSome_cutAt?_iff.mpr ⟨front.toList, rest.toList, by simp⟩
    rw [hcut] at hsome
    cases hsome
  | some cut =>
    obtain ⟨front, rest⟩ := cut
    obtain ⟨htext, hfirst⟩ := cutAt?_eq_some_iff.mp hcut
    have htext' := ofList_eq_of_cutAt? hcut
    rw [String.ofList_toList] at htext'
    rw [Option.map_some, findBytes?, List.find?_range_eq_some]
    refine ⟨(standsAt_iff hmark).mpr ⟨_, _, htext', rfl⟩, ?_, fun j hj => ?_⟩
    · have hsize := congrArg String.utf8ByteSize htext'
      rw [String.utf8ByteSize_append, String.utf8ByteSize_append] at hsize
      rw [List.mem_range]
      simp only
      omega
    · rw [Bool.not_eq_true', Bool.eq_false_iff, Ne, standsAt_iff hmark]
      rintro ⟨front', rest', hother, rfl⟩
      have hlength := hfirst front'.toList rest'.toList (by simp [hother])
      have hfront : front <+: text.toList := ⟨_, by rw [htext, List.append_assoc]⟩
      have hfront' : front'.toList <+: text.toList :=
        ⟨mark.toList ++ rest'.toList, by simp [hother]⟩
      have hprefix := List.prefix_of_prefix_length_le hfront hfront' hlength
      have hle := String.utf8Len_le_of_prefix hprefix
      rw [← String.utf8ByteSize_ofList, ← String.utf8ByteSize_ofList, String.ofList_toList] at hle
      exact absurd hj (Nat.not_lt.mpr hle)

end Reclaim.Text
