import Mathlib
import Reclaim.Text.Lowercase

/-!
# Capitals and small letters in lower-casing

Texts that are equal up to the case of ASCII letters have the same lower-case form.  This is not
only a matter of the single letters: the form of `Σ` depends on the letters around it, and for this
a capital counts as its small letter does.  The converse fails as soon as a letter is not ASCII.

## Main results

* `Text.lower_eq_of_sameAscii` : equality up to the case of ASCII letters against lower-case forms.
-/

namespace Reclaim.Text

/-- An ASCII capital and its small letter have the same place in the alphabet. -/
theorem exists_toNat_of_isUpper {c : Char} (h : c.isUpper = true) :
    ∃ k < 26, c.toNat = 0x41 + k ∧ c.toLower.toNat = 0x61 + k := by
  have hbounds : 0x41 ≤ c.toNat ∧ c.toNat ≤ 0x5A := by
    simpa [Char.isUpper, UInt32.le_iff_toNat_le] using h
  have hvalid : (c.toNat + 32).isValidChar := .inl (by omega)
  refine ⟨c.toNat - 0x41, by omega, by omega, ?_⟩
  rw [Char.toLower_eq_of_isUpper h, Char.toNat_ofNat, if_pos hvalid]
  omega

/-- A small letter belongs to a table that its capital belongs to, if this holds of the alphabet. -/
theorem inRanges_toLower {ranges : List (Nat × Nat)}
    (halphabet : ∀ k < 26, inRanges ranges (0x61 + k) = inRanges ranges (0x41 + k)) (c : Char) :
    inRanges ranges c.toLower.toNat = inRanges ranges c.toNat := by
  by_cases hupper : c.isUpper = true
  · obtain ⟨k, hk, hcapital, hsmall⟩ := exists_toNat_of_isUpper hupper
    rw [hcapital, hsmall, halphabet k hk]
  · rw [Char.toLower_eq_of_not_isUpper hupper]

theorem isCased_toLower (c : Char) :
    inRanges casedRanges c.toLower.toNat = inRanges casedRanges c.toNat :=
  inRanges_toLower (by decide) c

theorem isIgnorable_toLower (c : Char) :
    inRanges ignorableRanges c.toLower.toNat = inRanges ignorableRanges c.toNat :=
  inRanges_toLower (by decide +kernel) c

theorem toLower_eq_sigma_iff {c : Char} : c.toLower = 'Σ' ↔ c = 'Σ' := by
  by_cases hupper : c.isUpper = true
  · obtain ⟨k, hk, hcapital, hsmall⟩ := exists_toNat_of_isUpper hupper
    constructor
    · intro h
      rw [h] at hsmall
      have hsigma : 'Σ'.toNat = 0x3A3 := rfl
      omega
    · rintro rfl
      rfl
  · rw [Char.toLower_eq_of_not_isUpper hupper]

/-- Small letters stand for their capitals in the lower-case form of a character. -/
theorem lowerChar_toLower (c : Char) : lowerChar c.toLower = lowerChar c := by
  by_cases hupper : c.isUpper = true
  · obtain ⟨k, hk, hcapital, hsmall⟩ := exists_toNat_of_isUpper hupper
    rw [lowerChar, lowerChar, hcapital, hsmall, if_pos (by omega), if_pos (by omega),
      Char.toLower_toLower_eq_toLower]
  · rw [Char.toLower_eq_of_not_isUpper hupper]

/-- The case of ASCII letters does not matter to what stands beside them. -/
theorem meetsCased_map_toLower (chars : List Char) :
    meetsCased (chars.map Char.toLower) = meetsCased chars := by
  induction chars with
  | nil => rfl
  | cons c chars ih =>
    simp only [meetsCased, List.map_cons, List.dropWhile_cons, isIgnorable_toLower]
    cases inRanges ignorableRanges c.toNat with
    | true => exact ih
    | false => exact isCased_toLower c

/-- Nor does it matter to the whole lower-case form. -/
theorem lowerFrom_map_toLower (front chars : List Char) :
    lowerFrom (front.map Char.toLower) (chars.map Char.toLower) = lowerFrom front chars := by
  induction chars generalizing front with
  | nil => rfl
  | cons c chars ih =>
    have hrest := ih (c :: front)
    rw [List.map_cons] at hrest
    simp only [List.map_cons, lowerFrom, toLower_eq_sigma_iff, meetsCased_map_toLower,
      lowerChar_toLower, hrest]

/-- Texts that are equal up to the case of ASCII letters have the same lower-case form. -/
theorem lower_eq_of_sameAscii {a b : String} (h : sameAscii a b = true) : lower a = lower b := by
  have hsmall : a.toList.map Char.toLower = b.toList.map Char.toLower := beq_iff_eq.mp h
  calc
    lower a = String.ofList (lowerFrom [] (a.toList.map Char.toLower)) :=
      congrArg String.ofList (lowerFrom_map_toLower [] a.toList).symm
    _ = String.ofList (lowerFrom [] (b.toList.map Char.toLower)) := by rw [hsmall]
    _ = lower b := congrArg String.ofList (lowerFrom_map_toLower [] b.toList)

/-- The converse fails: the letters of a text are not all ASCII. -/
example : lower "É" = lower "é" ∧ sameAscii "É" "é" = false := by decide +kernel

end Reclaim.Text
