import Mathlib
import Reclaim.Decimal.Rounding
import Reclaim.Proofs.Text.Cutting

/-!
# Decimals are the nearest ones

A fraction is rounded to the whole number nearest to it, the even one of two.  What this means is
told without the division that finds it, and everything else follows from that: the nearest whole
number grows with the fraction, and a whole number is its own nearest one.  A decimal is the nearest
whole number of its last place, and it is read back as that.

## Main definitions

* `Decimal.IsNearest` : the whole number nearest to a fraction, the even one of two.
* `Decimal.read?` : the number that a decimal says, with its places.

## Main results

* `Decimal.isNearest_roundDiv` : rounding gives the nearest whole number.
* `Decimal.IsNearest.mono` : the nearest whole number grows with the fraction.
* `Decimal.read?_fixed` : a decimal is read back as the number that was written.
-/

namespace Reclaim.Decimal

/-! ### The nearest whole number -/

/-- The whole number is nearest to a fraction, and the even one if two are equally near. -/
structure IsNearest (n : ℕ) (x : ℚ) : Prop where
  near : |(n : ℚ) - x| ≤ 1 / 2
  even : |(n : ℚ) - x| = 1 / 2 → Even n

namespace IsNearest

variable {n m : ℕ} {x y : ℚ}

theorem le_add (h : IsNearest n x) : (n : ℚ) ≤ x + 1 / 2 := by
  linarith [(abs_le.mp h.near).2]

theorem sub_le (h : IsNearest n x) : x - 1 / 2 ≤ n := by
  linarith [(abs_le.mp h.near).1]

/-- The nearest whole number grows with the fraction. -/
theorem mono (hn : IsNearest n x) (hm : IsNearest m y) (hxy : x ≤ y) : n ≤ m := by
  by_contra! hlt
  have hstep : (m : ℚ) + 1 ≤ n := by exact_mod_cast hlt
  have hupper := hn.le_add
  have hlower := hm.sub_le
  -- both are half a unit away from one and the same fraction, so both are even
  have hgap : (n : ℚ) = m + 1 := by linarith
  have hn_even : Even n := hn.even (by rw [abs_of_nonneg] <;> linarith)
  have hm_even : Even m := hm.even (by rw [abs_of_nonpos] <;> linarith)
  have hodd : n = m + 1 := by exact_mod_cast hgap
  exact Nat.even_add_one.mp (hodd ▸ hn_even) hm_even

/-- A whole number is nearest to itself. -/
theorem natCast (n : ℕ) : IsNearest n n := by
  constructor
  · simp
  · intro h
    norm_num at h

theorem unique (hn : IsNearest n x) (hm : IsNearest m x) : n = m :=
  (hn.mono hm le_rfl).antisymm (hm.mono hn le_rfl)

theorem natCast_iff : IsNearest n (m : ℚ) ↔ n = m :=
  ⟨fun h => h.unique (natCast m), fun h => h ▸ natCast m⟩

/-- An even whole number is reached from half a unit below it on. -/
theorem le_iff (h : IsNearest n x) (hm : Even m) : m ≤ n ↔ (m : ℚ) - 1 / 2 ≤ x := by
  constructor
  · intro hle
    have hcast : (m : ℚ) ≤ n := by exact_mod_cast hle
    linarith [h.le_add]
  · intro hx
    by_contra! hlt
    have hstep : (n : ℚ) + 1 ≤ m := by exact_mod_cast hlt
    have hgap : (m : ℚ) = n + 1 := by linarith [h.sub_le]
    have heven : Even n := h.even (by rw [abs_of_nonpos] <;> linarith [h.sub_le])
    have hodd : m = n + 1 := by exact_mod_cast hgap
    exact Nat.even_add_one.mp (hodd ▸ hm) heven

end IsNearest

/-- Rounding gives the nearest whole number. -/
theorem isNearest_roundDiv (num : ℕ) {den : ℕ} (hden : 0 < den) :
    IsNearest (roundDiv num den) (num / den : ℚ) := by
  have hpos : (0 : ℚ) < den := by exact_mod_cast hden
  have hparts : (num : ℚ) / den = (num / den : ℕ) + (num % den : ℕ) / den := by
    field_simp
    exact_mod_cast (Nat.div_add_mod num den).symm
  have hrest : ((num % den : ℕ) : ℚ) / den < 1 := by
    rw [div_lt_one hpos]
    exact_mod_cast Nat.mod_lt num hden
  have hrest' : 0 ≤ ((num % den : ℕ) : ℚ) / den := by positivity
  have hhalf : 2 * (num % den) < den ↔ ((num % den : ℕ) : ℚ) / den < 1 / 2 := by
    rw [div_lt_div_iff₀ hpos two_pos, one_mul, mul_comm]
    exact_mod_cast Iff.rfl
  have hhalf' : den < 2 * (num % den) ↔ 1 / 2 < ((num % den : ℕ) : ℚ) / den := by
    rw [div_lt_div_iff₀ two_pos hpos, one_mul, mul_comm]
    exact_mod_cast Iff.rfl
  rw [hparts]
  generalize ((num % den : ℕ) : ℚ) / den = rest at *
  have hlow (hle : rest ≤ 1 / 2) (heven : rest = 1 / 2 → (num / den) % 2 = 0) :
      IsNearest (num / den) ((num / den : ℕ) + rest) := by
    have hdist : ((num / den : ℕ) : ℚ) - ((num / den : ℕ) + rest) = -rest := by ring
    constructor
    · rwa [hdist, abs_neg, abs_of_nonneg hrest']
    · rw [hdist, abs_neg, abs_of_nonneg hrest']
      exact fun h => Nat.even_iff.mpr (heven h)
  have hhigh (hle : 1 / 2 ≤ rest) (hodd : rest = 1 / 2 → (num / den) % 2 ≠ 0) :
      IsNearest (num / den + 1) ((num / den : ℕ) + rest) := by
    have hdist : ((num / den + 1 : ℕ) : ℚ) - ((num / den : ℕ) + rest) = 1 - rest := by
      push_cast
      ring
    constructor
    · rw [hdist, abs_of_nonneg (by linarith)]
      linarith
    · rw [hdist, abs_of_nonneg (by linarith)]
      intro h
      have := hodd (by linarith)
      exact Nat.even_iff.mpr (by omega)
  simp only [roundDiv, hhalf, hhalf']
  split
  next h => exact hlow h.le fun he => absurd he h.ne
  next h =>
    split
    next h' => exact hhigh h'.le fun he => absurd he h'.ne'
    next h' =>
      split
      next heven => exact hlow (not_lt.mp h') fun _ => heven
      next hodd => exact hhigh (not_lt.mp h) fun _ => hodd

/-! ### Reading a decimal -/

/-- The characters are digits, and there is one. -/
def areDigits (text : List Char) : Bool :=
  !text.isEmpty && text.all Char.isDigit

/-- The number that a decimal without a sign says, with the number of its places. -/
def read? (text : List Char) : Option (ℚ × ℕ) :=
  match Text.cutAt? ['.'] text with
  | none => if areDigits text then some (Nat.ofDigitChars 10 text 0, 0) else none
  | some (whole, places) =>
    if areDigits whole && areDigits places then
      some (Nat.ofDigitChars 10 (whole ++ places) 0 / 10 ^ places.length, places.length)
    else none

/-- The text with a number of units of the last of some places. -/
def ofUnits (places units : ℕ) : List Char :=
  if places = 0 then digits units
  else digits (units / 10 ^ places) ++ '.' :: digitsPadded places (units % 10 ^ places)

theorem toList_fixed (places num den : ℕ) :
    (fixed places num den).toList = ofUnits places (roundDiv (num * 10 ^ places) den) := by
  rw [fixed, ofUnits]
  split
  next h => simp [h]
  next => simp

theorem areDigits_digits (n : ℕ) : areDigits (digits n) = true := by
  rw [areDigits, Bool.and_eq_true, List.all_eq_true]
  have hne : digits n ≠ [] := Nat.toDigits_ne_nil
  exact ⟨by simpa using hne, fun c hc => Nat.isDigit_of_mem_toDigits (by decide) (by decide) hc⟩

theorem length_digitsPadded {places n : ℕ} (hplaces : 0 < places) (hn : n < 10 ^ places) :
    (digitsPadded places n).length = places := by
  have hle := (Nat.length_toDigits_le_iff (by decide) hplaces).mpr hn
  rw [digitsPadded, List.length_append, List.length_replicate, digits]
  omega

theorem areDigits_digitsPadded (places n : ℕ) : areDigits (digitsPadded places n) = true := by
  have hdigits := areDigits_digits n
  rw [areDigits, Bool.and_eq_true, List.all_eq_true] at hdigits ⊢
  refine ⟨?_, fun c hc => ?_⟩
  · simp_all [digitsPadded]
  · rcases List.mem_append.mp hc with hzero | hc
    · rw [List.eq_of_mem_replicate hzero]
      rfl
    · exact hdigits.2 c hc

theorem ofDigitChars_digitsPadded (places n : ℕ) :
    Nat.ofDigitChars 10 (digitsPadded places n) 0 = n := by
  rw [digitsPadded, Nat.ofDigitChars_append, Nat.ofDigitChars_replicate_zero, mul_zero, digits,
    Nat.ofDigitChars_ten_toDigits]

theorem notMem_of_areDigits {text : List Char} (h : areDigits text = true) {c : Char}
    (hc : c.isDigit = false) : c ∉ text := by
  intro hmem
  have hdigit := List.all_eq_true.mp (Bool.and_eq_true_iff.mp h).2 c hmem
  rw [hc] at hdigit
  exact Bool.false_ne_true hdigit

/-- A number of units of the last place is read back as the number that it says. -/
theorem read?_ofUnits (places units : ℕ) :
    read? (ofUnits places units) = some ((units : ℚ) / 10 ^ places, places) := by
  rw [ofUnits]
  split
  next hplaces =>
    have hnone : Text.cutAt? ['.'] (digits units) = none := by
      rw [← Option.not_isSome_iff_eq_none, Text.isSome_cutAt?_iff, List.singleton_infix_iff]
      exact notMem_of_areDigits (areDigits_digits units) (by decide)
    rw [read?, hnone]
    simp only [areDigits_digits, if_true, hplaces]
    rw [digits, Nat.ofDigitChars_ten_toDigits, pow_zero, div_one]
  next hplaces =>
    have hpos : 0 < 10 ^ places := by positivity
    have hlength := length_digitsPadded (Nat.pos_of_ne_zero hplaces) (Nat.mod_lt units hpos)
    have hcut : Text.cutAt? ['.'] (digits (units / 10 ^ places) ++
        '.' :: digitsPadded places (units % 10 ^ places)) =
        some (digits (units / 10 ^ places), digitsPadded places (units % 10 ^ places)) := by
      rw [Text.cutAt?_eq_some_iff, Text.firstAt_iff List.not_mem_nil, List.singleton_infix_iff]
      exact ⟨by simp, notMem_of_areDigits (areDigits_digits _) (by decide)⟩
    rw [read?, hcut]
    simp only [areDigits_digits, areDigits_digitsPadded, Bool.and_self, if_true, hlength]
    rw [Nat.ofDigitChars_append, Nat.ofDigitChars_eq_ofDigitChars_zero, hlength,
      ofDigitChars_digitsPadded, digits, Nat.ofDigitChars_ten_toDigits, Nat.div_add_mod]

/-- **A decimal is read back as the nearest number with its places.** -/
theorem read?_fixed (places num : ℕ) {den : ℕ} (hden : 0 < den) :
    ∃ units, IsNearest units (num / den * 10 ^ places : ℚ) ∧
      (fixed places num den).toList = ofUnits places units ∧
      read? (fixed places num den).toList = some ((units : ℚ) / 10 ^ places, places) := by
  have hnearest := isNearest_roundDiv (num * 10 ^ places) hden
  rw [Nat.cast_mul, Nat.cast_pow, Nat.cast_ofNat, mul_div_right_comm] at hnearest
  refine ⟨_, hnearest, toList_fixed .., ?_⟩
  rw [toList_fixed, read?_ofUnits]

end Reclaim.Decimal
