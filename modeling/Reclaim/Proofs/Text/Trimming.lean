import Mathlib
import Reclaim.Text.Blank

/-!
# What is left between two ends

A text loses the blanks at its two ends, and a path that is cut loses the empty stretches at its two
ends.  What is left is told by what it is: the rest of the list is at the ends and belongs there,
and nothing at the ends of what is left does.

## Main definitions

* `Trimmed` : a list without what belongs to its ends.

## Main results

* `trimmed_iff` : there is exactly one such list.
* `Text.trimmed_iff_trimChars`, `Text.trim_eq_empty_iff` : texts without the blanks at their ends.
-/

namespace Reclaim

section

variable {α : Type} {drop : α → Bool} {whole part : List α}

/-- The list is what is left of another without the members at its two ends that satisfy `drop`. -/
structure Trimmed (drop : α → Bool) (whole part : List α) : Prop where
  cut : ∃ left right, whole = left ++ part ++ right ∧ ∀ x ∈ left ++ right, drop x = true
  head : ∀ x ∈ part.head?, drop x = false
  last : ∀ x ∈ part.getLast?, drop x = false

theorem dropWhile_append_of_head {front rest : List α} (hfront : ∀ x ∈ front, drop x = true)
    (hrest : ∀ x ∈ rest.head?, drop x = false) : (front ++ rest).dropWhile drop = rest := by
  rw [List.dropWhile_append_of_pos hfront]
  cases rest with
  | nil => rfl
  | cons x rest => rw [List.dropWhile_cons_of_neg (by simp [hrest x rfl])]

theorem trimmed_rdropWhile (drop : α → Bool) (whole : List α) :
    Trimmed drop whole ((whole.dropWhile drop).rdropWhile drop) where
  cut := by
    refine ⟨whole.takeWhile drop, (whole.dropWhile drop).rtakeWhile drop, ?_, ?_⟩
    · rw [List.append_assoc, List.rdropWhile_append_rtakeWhile, List.takeWhile_append_dropWhile]
    · rw [List.forall_mem_append]
      exact ⟨fun _ => List.mem_takeWhile_imp, fun _ => List.mem_rtakeWhile_imp⟩
  head x hx := by
    obtain ⟨rest, hrest⟩ := List.head?_eq_some_iff.mp hx
    obtain ⟨right, hright⟩ := List.rdropWhile_prefix drop (whole.dropWhile drop)
    have hhead := List.head?_dropWhile_not drop whole
    rwa [← hright, hrest, List.cons_append] at hhead
  last x hx := by
    obtain ⟨hne, rfl⟩ := List.mem_getLast?_eq_getLast hx
    simpa using List.rdropWhile_last_not drop (whole.dropWhile drop) hne

/-- There is exactly one list that is left. -/
theorem trimmed_iff :
    Trimmed drop whole part ↔ part = (whole.dropWhile drop).rdropWhile drop := by
  refine ⟨?_, fun h => h ▸ trimmed_rdropWhile drop whole⟩
  rintro ⟨⟨left, right, rfl, hends⟩, hhead, hlast⟩
  rw [List.forall_mem_append] at hends
  by_cases hpart : part = []
  · subst hpart
    rw [List.append_nil, List.dropWhile_append_of_pos hends.1,
      List.dropWhile_eq_nil_iff.mpr hends.2]
    rfl
  · have hfront : (left ++ (part ++ right)).dropWhile drop = part ++ right := by
      refine dropWhile_append_of_head hends.1 fun x hx => hhead x ?_
      rwa [List.head?_append_of_ne_nil _ hpart] at hx
    have hback : (right.reverse ++ part.reverse).dropWhile drop = part.reverse := by
      refine dropWhile_append_of_head (fun x hx => hends.2 x (List.mem_reverse.mp hx)) ?_
      rwa [List.head?_reverse]
    rw [List.append_assoc, hfront, List.rdropWhile, List.reverse_append, hback,
      List.reverse_reverse]

end

namespace Text

/-- A text is trimmed of its blanks. -/
theorem trimmed_iff_trimChars {chars value : List Char} :
    Trimmed isBlank chars value ↔ value = trimChars chars :=
  trimmed_iff

theorem trimChars_eq_nil_iff {chars : List Char} :
    trimChars chars = [] ↔ ∀ c ∈ chars, isBlank c = true := by
  rw [eq_comm, ← trimmed_iff_trimChars]
  constructor
  · rintro ⟨⟨left, right, rfl, hends⟩, -, -⟩
    rwa [List.append_nil]
  · exact fun h => ⟨⟨chars, [], by simp, by simpa using h⟩, by simp, by simp⟩

theorem trim_eq_empty_iff {text : String} :
    trim text = "" ↔ ∀ c ∈ text.toList, isBlank c = true := by
  rw [trim, ← String.toList_eq_nil_iff, String.toList_ofList, trimChars_eq_nil_iff]

end Text

end Reclaim
