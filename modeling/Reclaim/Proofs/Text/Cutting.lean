import Mathlib
import Reclaim.Text.Blank

/-!
# Finding one text in another

A mark is looked for from the front, and a text is cut at the first place where the mark stands.
Whether the mark occurs at all does not depend on where: it is to be a stretch of the text.

## Main definitions

* `Text.FirstAt` : the first occurrence of one text in another.

## Main results

* `Text.firstAt_iff` : the first occurrence of a mark that cannot overlap with itself.
* `Text.cutAt?_eq_some_iff` : where a text is cut.
* `Text.occursIn_iff` : occurring in a text.
-/

namespace Reclaim.Text

variable {mark text front rest : List Char}

/-- The mark stands between `front` and `rest`, and nowhere further in front. -/
structure FirstAt (mark text front rest : List Char) : Prop where
  cut : text = front ++ mark ++ rest
  first : ∀ front' rest', text = front' ++ mark ++ rest' → front.length ≤ front'.length

/-- A mark whose first character does not come again in it stands first where it does not occur in
what is in front. -/
theorem firstAt_iff {m : Char} (hm : m ∉ mark) :
    FirstAt (m :: mark) text front rest ↔
      text = front ++ m :: mark ++ rest ∧ ¬(m :: mark) <:+: front := by
  constructor
  · rintro ⟨hcut, hfirst⟩
    refine ⟨hcut, ?_⟩
    rintro ⟨front', rest', rfl⟩
    have hle := hfirst front' (rest' ++ m :: mark ++ rest) (by simp [hcut])
    simp only [List.length_append, List.length_cons] at hle
    omega
  · rintro ⟨hcut, hnot⟩
    refine ⟨hcut, fun front' rest' hcut' => ?_⟩
    by_contra hlt
    rw [List.append_assoc] at hcut hcut'
    have hfront : front <+: text := ⟨_, hcut.symm⟩
    have hfront' : front' <+: text := ⟨_, hcut'.symm⟩
    obtain ⟨gap, rfl⟩ := List.prefix_of_prefix_length_le hfront' hfront (Nat.le_of_not_le hlt)
    rw [hcut, List.append_assoc, List.append_cancel_left_eq] at hcut'
    -- the earlier mark would have to reach into the later one, whose first character it repeats
    rcases List.append_eq_append_iff.mp hcut' with ⟨back, hback, hlater⟩ | ⟨back, rfl, -⟩
    · cases gap with
      | nil => simp at hlt
      | cons c gap =>
        obtain ⟨rfl, rfl⟩ := List.cons.inj hback
        cases back with
        | nil => exact hnot ⟨front', [], by simp⟩
        | cons c' back => exact hm (by simp [(List.cons.inj hlater).1])
    · exact hnot ⟨front', back, by simp⟩

theorem after?_eq_some_iff : after? mark text = some rest ↔ text = mark ++ rest := by
  induction mark generalizing text with
  | nil => simp [after?, eq_comm]
  | cons m mark ih =>
    cases text with
    | nil => simp [after?]
    | cons c text =>
      rw [after?]
      split
      next heq => simp [heq, ih]
      next hne => simp [Ne.symm hne]

theorem after?_eq_none_iff : after? mark text = none ↔ ∀ rest, text ≠ mark ++ rest := by
  rw [Option.eq_none_iff_forall_ne_some]
  exact forall_congr' fun rest => not_congr after?_eq_some_iff

/-- A text is cut at the first occurrence of a mark. -/
theorem cutAt?_eq_some_iff :
    cutAt? mark text = some (front, rest) ↔ FirstAt mark text front rest := by
  induction text generalizing front with
  | nil =>
    simp only [cutAt?, Option.map_eq_some_iff, after?_eq_some_iff, Prod.mk.injEq]
    constructor
    · rintro ⟨rest, hcut, rfl, rfl⟩
      exact ⟨hcut, fun _ _ _ => Nat.zero_le _⟩
    · rintro ⟨hcut, -⟩
      obtain ⟨hfront, hrest⟩ := List.append_eq_nil_iff.mp hcut.symm
      exact ⟨rest, by simp_all, by simp_all⟩
  | cons c text ih =>
    rw [cutAt?]
    split
    next rest' hhere =>
      rw [after?_eq_some_iff] at hhere
      constructor
      · rintro ⟨⟩
        exact ⟨hhere, fun _ _ _ => Nat.zero_le _⟩
      · rintro ⟨hcut, hfirst⟩
        -- the mark stands at the very front, so nothing is in front of the first one
        have hlength : front.length = 0 := Nat.le_zero.mp (hfirst [] rest' hhere)
        obtain rfl : front = [] := List.length_eq_zero_iff.mp hlength
        rw [hhere] at hcut
        simpa using hcut
    next hnot =>
      rw [after?_eq_none_iff] at hnot
      simp only [Option.map_eq_some_iff, Prod.exists, Prod.mk.injEq]
      constructor
      · rintro ⟨front, rest, hrest, rfl, rfl⟩
        obtain ⟨hcut, hfirst⟩ := ih.mp hrest
        refine ⟨by rw [hcut]; rfl, fun front' rest' hcut' => ?_⟩
        cases front' with
        | nil => exact absurd hcut' (hnot rest')
        | cons c' front' =>
          obtain ⟨-, hcut'⟩ := List.cons.inj hcut'
          exact Nat.succ_le_succ (hfirst front' rest' hcut')
      · rintro ⟨hcut, hfirst⟩
        cases front with
        | nil => exact absurd hcut (hnot rest)
        | cons c' front =>
          obtain ⟨rfl, hrest⟩ := List.cons.inj hcut
          refine ⟨front, rest, ih.mpr ⟨hrest, fun front' rest' hcut' => ?_⟩, rfl, rfl⟩
          exact Nat.le_of_succ_le_succ (hfirst (c :: front') rest' (by rw [hcut']; rfl))

theorem isSome_cutAt?_iff : (cutAt? mark text).isSome = true ↔ mark <:+: text := by
  induction text with
  | nil =>
    rw [cutAt?, Option.isSome_map, Option.isSome_iff_exists, List.infix_nil]
    simp [after?_eq_some_iff]
  | cons c text ih =>
    rw [cutAt?, List.infix_cons_iff]
    split
    next rest hhere =>
      have hfront : mark <+: c :: text := ⟨rest, (after?_eq_some_iff.mp hhere).symm⟩
      simp [hfront]
    next hnot =>
      have hfront : ¬mark <+: c :: text := by
        rintro ⟨rest, hrest⟩
        exact after?_eq_none_iff.mp hnot rest hrest.symm
      rw [Option.isSome_map, ih, or_iff_right hfront]

/-- A text occurs in another if it is a stretch of it. -/
theorem occursIn_iff {mark text : String} :
    occursIn mark text = true ↔ mark.toList <:+: text.toList :=
  isSome_cutAt?_iff

end Reclaim.Text
