import Mathlib
import Reclaim.Decimal.Double
import Reclaim.Proofs.Decimal.Rounding

/-!
# What double precision keeps

An operation on doubles rounds its exact result once.  Which double that is, is told by the place of
its last bit: between two powers of two the doubles are the multiples of one unit, and the result is
the nearest of them.  So rounding keeps the order, changes no value that is a double already, and is
off by half a unit at most.

## Main definitions

* `Double.value?` : the exact value of a finite double.
* `Double.IsBinary64` : the double has 53 bits and an exponent within the bounds.
* `Double.HasUnit` : what the last bit of the doubles near a value stands for.
* `Double.RoundsTo` : the double nearest to a value.

## Main results

* `Double.RoundsTo.mono`, `Double.RoundsTo.eq_self`, `Double.RoundsTo.le_iff`,
  `Double.RoundsTo.abs_sub_le` : rounding keeps the order, the doubles themselves, the halves
  between them, and the size.
* `Double.magnitude_ofNat`, `Double.Magnitude.divide`, `Double.Magnitude.scale`,
  `Double.Magnitude.subtract` : the operations round their exact results.
-/

namespace Reclaim.Double

open Decimal

/-- The exact value of a double, if it is finite. -/
def value? : Double → Option ℚ
  | .finite negative m e => some (if negative then -(m * 2 ^ e) else m * 2 ^ e)
  | _ => none

/-- The double has at most 53 bits and an exponent that fits. -/
def IsBinary64 : Double → Prop
  | .finite _ m e => m < 2 ^ 53 ∧ minExponent ≤ e ∧ e ≤ 971
  | _ => True

variable {x y s t : ℚ} {e f : ℤ}

/-! ### Powers of two -/

theorem two_zpow_pos (e : ℤ) : (0 : ℚ) < 2 ^ e :=
  zpow_pos two_pos e

theorem two_mul_zpow_le (h : e < f) : 2 * (2 : ℚ) ^ e ≤ 2 ^ f := by
  rw [← zpow_one_add₀ two_ne_zero]
  exact zpow_le_zpow_right₀ one_le_two (by omega)

theorem two_zpow_eq_natCast (h : e ≤ f) : (2 : ℚ) ^ f = (2 ^ (f - e).toNat : ℕ) * 2 ^ e := by
  rw [Nat.cast_pow, Nat.cast_ofNat, ← zpow_natCast, ← zpow_add₀ two_ne_zero,
    Int.toNat_of_nonneg (by omega), sub_add_cancel]

/-- The value is a multiple of a power of two. -/
def OnGrid (e : ℤ) (x : ℚ) : Prop :=
  ∃ n : ℕ, x = n * 2 ^ e

namespace OnGrid

theorem mono (h : OnGrid f x) (hle : e ≤ f) : OnGrid e x := by
  obtain ⟨n, rfl⟩ := h
  refine ⟨n * 2 ^ (f - e).toNat, ?_⟩
  rw [two_zpow_eq_natCast hle]
  push_cast
  ring

theorem natCast (n : ℕ) (he : e ≤ 0) : OnGrid e n :=
  mono ⟨n, by simp⟩ he

/-- Two multiples of a power of two are that power apart. -/
theorem add_le (hx : OnGrid e x) (hy : OnGrid e y) (hlt : x < y) : x + 2 ^ e ≤ y := by
  obtain ⟨n, rfl⟩ := hx
  obtain ⟨m, rfl⟩ := hy
  have hnm : n + 1 ≤ m := by exact_mod_cast lt_of_mul_lt_mul_right hlt (two_zpow_pos e).le
  have hnm' : (n : ℚ) + 1 ≤ m := by exact_mod_cast hnm
  nlinarith [two_zpow_pos e]

theorem sub (hx : OnGrid e x) (hy : OnGrid e y) (hle : y ≤ x) : OnGrid e (x - y) := by
  obtain ⟨n, rfl⟩ := hx
  obtain ⟨m, rfl⟩ := hy
  have hmn : m ≤ n := by exact_mod_cast le_of_mul_le_mul_right hle (two_zpow_pos e)
  exact ⟨n - m, by rw [Nat.cast_sub hmn]; ring⟩

end OnGrid

/-! ### Values that are doubles -/

/-- The value is that of a double, however large. -/
def Representable (x : ℚ) : Prop :=
  ∃ (m : ℕ) (e : ℤ), m < 2 ^ 53 ∧ minExponent ≤ e ∧ x = m * 2 ^ e

theorem representable_of_onGrid (he : minExponent ≤ e) (hx : OnGrid e x)
    (hlt : x < 2 ^ 53 * 2 ^ e) : Representable x := by
  obtain ⟨n, rfl⟩ := hx
  refine ⟨n, e, ?_, he, rfl⟩
  exact_mod_cast lt_of_mul_lt_mul_right hlt (two_zpow_pos e).le

theorem representable_natCast {n : ℕ} (h : n < 2 ^ 53) : Representable n :=
  ⟨n, 0, h, by decide, by simp⟩

theorem representable_two_zpow (h : minExponent ≤ e) : Representable (2 ^ e) :=
  ⟨1, e, by decide, h, by simp⟩

/-! ### The double nearest to a value -/

/-- The last bit of the doubles near a value stands for `2 ^ e`. -/
structure HasUnit (x : ℚ) (e : ℤ) : Prop where
  min_le : minExponent ≤ e
  lt : x < 2 ^ 53 * 2 ^ e
  le : minExponent < e → 2 ^ 52 * 2 ^ e ≤ x

theorem HasUnit.mono (hx : HasUnit x e) (hy : HasUnit y f) (hxy : x ≤ y) : e ≤ f := by
  by_contra! hlt
  have hle := hx.le (hy.min_le.trans_lt hlt)
  have hpow := two_mul_zpow_le hlt
  have hy_lt := hy.lt
  norm_num at hle hy_lt
  linarith

theorem HasUnit.le_of_lt (hx : HasUnit x e) (hlt : x < 2 ^ 53 * 2 ^ f) (hf : minExponent ≤ f) :
    e ≤ f := by
  by_contra! hlt'
  have hle := hx.le (hf.trans_lt hlt')
  have hpow := two_mul_zpow_le hlt'
  norm_num at hle hlt
  linarith

/-- A double is a multiple of its unit. -/
theorem HasUnit.onGrid (hx : HasUnit x e) (h : Representable x) : OnGrid e x := by
  obtain ⟨m, f, hm, hf, rfl⟩ := h
  refine OnGrid.mono ⟨m, rfl⟩ ?_
  by_contra! hlt
  have hm' : (m : ℚ) < 2 ^ 53 := by exact_mod_cast hm
  have hle := hx.le (hf.trans_lt hlt)
  have hpow := two_mul_zpow_le hlt
  have hpos := two_zpow_pos f
  nlinarith

/-- The value of the double nearest to a value that is not negative. -/
def RoundsTo (x s : ℚ) : Prop :=
  ∃ (e : ℤ) (n : ℕ), HasUnit x e ∧ IsNearest n (x / 2 ^ e) ∧ s = n * 2 ^ e

theorem roundsTo_zero : RoundsTo 0 0 := by
  refine ⟨minExponent, 0, ⟨le_rfl, ?_, fun h => absurd h (lt_irrefl _)⟩, ?_, by simp⟩
  · exact mul_pos (by norm_num) (two_zpow_pos minExponent)
  · simpa using IsNearest.natCast 0

namespace RoundsTo

/-- What is rounded is not moved beyond the next power of two. -/
theorem le_of_hasUnit {n : ℕ} (hx : HasUnit x e) (hn : IsNearest n (x / 2 ^ e)) : n ≤ 2 ^ 53 := by
  refine hn.mono (IsNearest.natCast (2 ^ 53)) ?_
  rw [div_le_iff₀ (two_zpow_pos e)]
  exact_mod_cast hx.lt.le

theorem ge_of_hasUnit {n : ℕ} (hx : HasUnit x e) (hn : IsNearest n (x / 2 ^ e))
    (he : minExponent < e) : 2 ^ 52 ≤ n := by
  refine (IsNearest.natCast (2 ^ 52)).mono hn ?_
  rw [le_div_iff₀ (two_zpow_pos e)]
  exact_mod_cast hx.le he

/-- Rounding keeps the order. -/
theorem mono (hx : RoundsTo x s) (hy : RoundsTo y t) (hxy : x ≤ y) : s ≤ t := by
  obtain ⟨e, n, hx, hn, rfl⟩ := hx
  obtain ⟨f, m, hy, hm, rfl⟩ := hy
  rcases (hx.mono hy hxy).eq_or_lt with rfl | hlt
  · have hnm := hn.mono hm (div_le_div_of_nonneg_right hxy (two_zpow_pos e).le)
    exact mul_le_mul_of_nonneg_right (by exact_mod_cast hnm) (two_zpow_pos e).le
  · -- the power of two between the two units is between the two results
    have hn' : (n : ℚ) ≤ 2 ^ 53 := by exact_mod_cast le_of_hasUnit hx hn
    have hm' : (2 : ℚ) ^ 52 ≤ m := by exact_mod_cast ge_of_hasUnit hy hm (hx.min_le.trans_lt hlt)
    calc (n : ℚ) * 2 ^ e ≤ 2 ^ 53 * 2 ^ e := mul_le_mul_of_nonneg_right hn' (two_zpow_pos e).le
      _ = 2 ^ 52 * (2 * 2 ^ e) := by ring
      _ ≤ 2 ^ 52 * 2 ^ f := mul_le_mul_of_nonneg_left (two_mul_zpow_le hlt) (by positivity)
      _ ≤ m * 2 ^ f := mul_le_mul_of_nonneg_right hm' (two_zpow_pos f).le

/-- A value that is a double is not changed. -/
theorem eq_self (hx : RoundsTo x s) (h : Representable x) : s = x := by
  obtain ⟨e, n, hx, hn, rfl⟩ := hx
  obtain ⟨k, rfl⟩ := hx.onGrid h
  rw [mul_div_assoc, div_self (two_zpow_pos e).ne', mul_one] at hn
  rw [IsNearest.natCast_iff.mp hn]

theorem representable (hx : RoundsTo x s) : Representable s := by
  obtain ⟨e, n, hx, hn, rfl⟩ := hx
  rcases (le_of_hasUnit hx hn).eq_or_lt with rfl | hlt
  · refine ⟨2 ^ 52, e + 1, by decide, by linarith [hx.min_le], ?_⟩
    rw [zpow_add_one₀ two_ne_zero]
    push_cast
    ring
  · exact ⟨n, e, hlt, hx.min_le, rfl⟩

/-- Rounding moves a value by half a unit at most. -/
theorem abs_sub_le (hx : RoundsTo x s) (hlt : x < 2 ^ 53 * 2 ^ f) (hf : minExponent ≤ f) :
    |s - x| ≤ 2 ^ f / 2 := by
  obtain ⟨e, n, hx, hn, rfl⟩ := hx
  have he := hx.le_of_lt hlt hf
  have hpos := two_zpow_pos e
  calc |(n : ℚ) * 2 ^ e - x| = |(n : ℚ) - x / 2 ^ e| * 2 ^ e := by
        rw [← abs_of_pos hpos, ← abs_mul, abs_of_pos hpos, sub_mul, div_mul_cancel₀ _ hpos.ne']
    _ ≤ 1 / 2 * 2 ^ e := mul_le_mul_of_nonneg_right hn.near hpos.le
    _ ≤ 2 ^ f / 2 := by linarith [zpow_le_zpow_right₀ (one_le_two (α := ℚ)) he]

/-- A double with an even last bit is reached from half a unit below it on. -/
theorem le_iff {k : ℕ} (hx : RoundsTo x s) (he : minExponent ≤ e) (hk : Even k)
    (hlow : 2 ^ 52 < k) (hhigh : k < 2 ^ 53) :
    (k : ℚ) * 2 ^ e ≤ s ↔ (k : ℚ) * 2 ^ e - 2 ^ e / 2 ≤ x := by
  obtain ⟨f, n, hx, hn, rfl⟩ := hx
  have hpos := two_zpow_pos e
  have hlow' : (2 : ℚ) ^ 52 + 1 ≤ k := by exact_mod_cast hlow
  have hhigh' : (k : ℚ) < 2 ^ 53 := by exact_mod_cast hhigh
  rcases lt_trichotomy e f with hlt | rfl | hlt
  · -- the value is above the next power of two
    have hpow := two_mul_zpow_le hlt
    have hx_le := hx.le (he.trans_lt hlt)
    have hn' : (2 : ℚ) ^ 52 ≤ n := by exact_mod_cast ge_of_hasUnit hx hn (he.trans_lt hlt)
    refine iff_of_true ?_ ?_ <;> nlinarith
  · rw [mul_le_mul_iff_left₀ hpos, Nat.cast_le, hn.le_iff hk, le_div_iff₀ hpos]
    constructor <;> intro h <;> linarith
  · -- the value is below the power of two in front of the double
    have hpow := two_mul_zpow_le hlt
    have hx_lt := hx.lt
    have hn' : (n : ℚ) ≤ 2 ^ 53 := by exact_mod_cast le_of_hasUnit hx hn
    have := two_zpow_pos f
    refine iff_of_false (not_le.mpr ?_) (not_le.mpr ?_) <;> nlinarith

end RoundsTo

/-! ### The unit that is found -/

theorem fraction_den_pos (m : ℕ) (e : ℤ) : 0 < (fraction m e).2 := by
  cases e with
  | ofNat e => exact Nat.one_pos
  | negSucc e => exact Nat.two_pow_pos _

/-- The fraction of a mantissa and an exponent has their value. -/
theorem fraction_div (m : ℕ) (e : ℤ) :
    ((fraction m e).1 : ℚ) / (fraction m e).2 = m * 2 ^ e := by
  cases e with
  | ofNat e => simp [fraction]
  | negSucc e => simp [fraction, zpow_negSucc, div_eq_mul_inv]

theorem two_zpow_log2_le {n : ℕ} (h : 0 < n) : (2 : ℚ) ^ (n.log2 : ℤ) ≤ n := by
  exact_mod_cast Nat.log2_self_le h.ne'

theorem lt_two_mul_zpow_log2 (n : ℕ) : (n : ℚ) < 2 * 2 ^ (n.log2 : ℤ) := by
  have hlt : n < 2 * 2 ^ n.log2 := by
    rw [← pow_succ']
    exact Nat.lt_log2_self
  exact_mod_cast hlt

/-- The comparison that settles the exponent. -/
theorem mul_fraction_lt_iff {num den : ℕ} (hden : 0 < den) (e : ℤ) :
    num * (fraction den e).2 < Nat.pow 2 53 * (fraction den e).1 ↔
      (num / den : ℚ) < 2 ^ 53 * 2 ^ e := by
  have hden' : (0 : ℚ) < den := by exact_mod_cast hden
  have hscaled : (0 : ℚ) < (fraction den e).2 := by exact_mod_cast fraction_den_pos den e
  have hvalue := fraction_div den e
  rw [div_eq_iff hscaled.ne'] at hvalue
  rw [div_lt_iff₀ hden', ← mul_lt_mul_iff_left₀ hscaled, ← Nat.cast_lt (α := ℚ), Nat.cast_mul,
    Nat.cast_mul, hvalue]
  have hpow : ((Nat.pow 2 53 : ℕ) : ℚ) = 2 ^ 53 := by norm_num
  rw [hpow]
  constructor <;> intro h <;> linarith

/-- The exponent that is found is that of the last bit. -/
theorem hasUnit_exponentOf {num den : ℕ} (hnum : 0 < num) (hden : 0 < den) :
    HasUnit (num / den : ℚ) (exponentOf num den) := by
  have hden' : (0 : ℚ) < den := by exact_mod_cast hden
  -- the two numbers are known up to a factor of two, and so their quotient up to a factor of four
  have hnum_le := two_zpow_log2_le hnum
  have hnum_lt := lt_two_mul_zpow_log2 num
  have hden_le := two_zpow_log2_le hden
  have hden_lt := lt_two_mul_zpow_log2 den
  set guess : ℤ := (num.log2 : ℤ) - den.log2 - 53 with hguess
  have hsplit : (2 : ℚ) ^ (num.log2 : ℤ) = 2 ^ 53 * 2 ^ guess * 2 ^ (den.log2 : ℤ) := by
    have h53 : (2 : ℚ) ^ 53 = 2 ^ (53 : ℤ) := by norm_cast
    rw [h53, ← zpow_add₀ two_ne_zero, ← zpow_add₀ two_ne_zero]
    congr 1
    omega
  have hpos := two_zpow_pos guess
  have hcond := @mul_fraction_lt_iff num den hden guess
  have hexponent : exponentOf num den = max (if num * (fraction den guess).2 <
      Nat.pow 2 53 * (fraction den guess).1 then guess else guess + 1) minExponent := rfl
  have hfound {found : ℤ} (hlt : (num / den : ℚ) < 2 ^ 53 * 2 ^ found)
      (hle : 2 ^ 52 * 2 ^ found ≤ (num / den : ℚ)) :
      HasUnit (num / den : ℚ) (max found minExponent) := by
    refine ⟨le_max_right .., ?_, fun hmin => ?_⟩
    · refine hlt.trans_le (mul_le_mul_of_nonneg_left ?_ (by positivity))
      exact zpow_le_zpow_right₀ one_le_two (le_max_left ..)
    · have hmax : max found minExponent = found := by omega
      rwa [hmax]
  rw [hexponent]
  split
  next h =>
    refine hfound (hcond.mp h) ?_
    rw [le_div_iff₀ hden']
    nlinarith
  next h =>
    have hle := not_lt.mp (mt hcond.mpr h)
    refine hfound ?_ ?_
    · rw [zpow_add_one₀ two_ne_zero, div_lt_iff₀ hden']
      nlinarith
    · rw [zpow_add_one₀ two_ne_zero]
      linarith

theorem Representable.roundsTo (h : Representable x) : RoundsTo x x := by
  obtain ⟨m, f, -, -, hx⟩ := id h
  rcases Nat.eq_zero_or_pos m with rfl | hm
  · rw [Nat.cast_zero, zero_mul] at hx
    exact hx ▸ roundsTo_zero
  · have hx' : x = (fraction m f).1 / (fraction m f).2 := by rw [hx, fraction_div]
    have hnum : 0 < (fraction m f).1 := by
      refine Nat.pos_of_ne_zero fun hzero => ?_
      rw [hzero, Nat.cast_zero, zero_div, hx] at hx'
      exact (mul_pos (by exact_mod_cast hm) (two_zpow_pos f)).ne' hx'
    have hunit := hasUnit_exponentOf hnum (fraction_den_pos m f)
    rw [← hx'] at hunit
    obtain ⟨k, hk⟩ := hunit.onGrid h
    refine ⟨_, k, hunit, ?_, hk⟩
    nth_rewrite 1 [hk]
    rw [mul_div_assoc, div_self (two_zpow_pos _).ne', mul_one]
    exact IsNearest.natCast k

/-- A double that is at most a value is at most what the value is rounded to. -/
theorem RoundsTo.double_le (hx : RoundsTo x s) (ht : Representable t) (h : t ≤ x) : t ≤ s :=
  ht.roundsTo.mono hx h

theorem RoundsTo.le_double (hx : RoundsTo x s) (ht : Representable t) (h : x ≤ t) : s ≤ t :=
  hx.mono ht.roundsTo h

/-! ### Operations -/

/-- The double is finite and has the sign and the size. -/
def Magnitude (d : Double) (negative : Bool) (x : ℚ) : Prop :=
  ∃ m e, d = .finite negative m e ∧ x = m * 2 ^ e

theorem exists_magnitude {d : Double} (h : d.value? = some x) (hx : 0 ≤ x) :
    ∃ negative, d.Magnitude negative x ∧ (negative = true → x = 0) := by
  cases d with
  | nan => cases h
  | infinite negative => cases h
  | finite negative m e =>
    have hsize : (0 : ℚ) ≤ m * 2 ^ e := mul_nonneg m.cast_nonneg (two_zpow_pos e).le
    rw [value?, Option.some.injEq] at h
    cases negative with
    | false => exact ⟨false, ⟨m, e, rfl, h.symm⟩, fun h => absurd h Bool.false_ne_true⟩
    | true =>
      rw [if_pos rfl] at h
      have hzero : x = 0 := by linarith
      exact ⟨true, ⟨m, e, rfl, by linarith⟩, fun _ => hzero⟩

theorem representable_of_isBinary64 {d : Double} {negative : Bool} (hd : d.IsBinary64)
    (h : d.Magnitude negative x) : Representable x := by
  obtain ⟨m, e, rfl, rfl⟩ := h
  exact ⟨m, e, hd.1, hd.2.1, rfl⟩

theorem magnitude_finite (negative : Bool) (m : ℕ) (e : ℤ) :
    (Double.finite negative m e).Magnitude negative (m * 2 ^ e) :=
  ⟨m, e, rfl, rfl⟩

/-- A carry into another bit goes into the exponent. -/
theorem magnitude_carried (negative : Bool) (e : ℤ) :
    (Double.finite negative (Nat.pow 2 52) (e + 1)).Magnitude negative
      ((Nat.pow 2 53 : ℕ) * 2 ^ e) := by
  refine ⟨_, _, rfl, ?_⟩
  rw [zpow_add_one₀ two_ne_zero]
  norm_num
  ring

theorem magnitude_nearest (negative : Bool) {num den : ℕ} (hnum : num ≠ 0)
    (hbound : exponentOf num den ≤ 970) :
    (nearest negative num den).Magnitude negative
      (roundDiv (num * (fraction 1 (exponentOf num den)).2)
        (den * (fraction 1 (exponentOf num den)).1) * 2 ^ exponentOf num den) := by
  rw [nearest, if_neg hnum]
  generalize exponentOf num den = e at hbound ⊢
  generalize hn : roundDiv (num * (fraction 1 e).2) (den * (fraction 1 e).1) = n
  by_cases hcarry : n = Nat.pow 2 53
  · simp only [hn, hcarry, if_true]
    rw [if_neg (by omega)]
    exact magnitude_carried negative e
  · simp only [hn, if_neg hcarry]
    rw [if_neg (by omega)]
    exact magnitude_finite negative n e

/-- Below this value everything is rounded to a finite double. -/
def limit : ℚ :=
  2 ^ 53 * 2 ^ (970 : ℤ)

theorem lt_limit (h : x ≤ 2 ^ 64) : x < limit := by
  have hpow : (2 : ℚ) ^ (11 : ℤ) < 2 ^ (970 : ℤ) := zpow_lt_zpow_right₀ one_lt_two (by decide)
  calc x ≤ 2 ^ 64 := h
    _ = 2 ^ 53 * 2 ^ (11 : ℤ) := by norm_num
    _ < limit := mul_lt_mul_of_pos_left hpow (by positivity)

/-- What is not too large is rounded to a finite double. -/
theorem exists_magnitude_nearest (negative : Bool) (num : ℕ) {den : ℕ} (hden : 0 < den)
    (hlt : (num / den : ℚ) < limit) :
    ∃ s, (nearest negative num den).Magnitude negative s ∧ RoundsTo (num / den) s := by
  rcases Nat.eq_zero_or_pos num with rfl | hnum
  · refine ⟨0, ⟨0, 0, rfl, by simp⟩, ?_⟩
    rw [Nat.cast_zero, zero_div]
    exact roundsTo_zero
  · have hunit := hasUnit_exponentOf hnum hden
    have hbound := hunit.le_of_lt hlt (by decide)
    refine ⟨_, magnitude_nearest negative hnum.ne' hbound, _, _, hunit, ?_, rfl⟩
    generalize exponentOf num den = e at *
    have hone := fraction_div 1 e
    rw [Nat.cast_one, one_mul] at hone
    have hunit_pos : 0 < (fraction 1 e).1 := by
      refine Nat.pos_of_ne_zero fun hzero => (two_zpow_pos e).ne ?_
      rw [← hone, hzero, Nat.cast_zero, zero_div]
    have hn := isNearest_roundDiv (num * (fraction 1 e).2) (Nat.mul_pos hden hunit_pos)
    rwa [Nat.cast_mul, Nat.cast_mul, mul_div_mul_comm, ← inv_div ((fraction 1 e).1 : ℚ), hone,
      ← div_eq_mul_inv] at hn

theorem magnitude_ofNat {n : ℕ} (h : (n : ℚ) < limit) :
    ∃ s, (ofNat n).Magnitude false s ∧ RoundsTo n s := by
  have hone := exists_magnitude_nearest false n Nat.one_pos (by simpa using h)
  rwa [Nat.cast_one, div_one] at hone

namespace Magnitude

variable {d d' : Double} {negative : Bool}

theorem value? (h : d.Magnitude false x) : d.value? = some x := by
  obtain ⟨m, e, rfl, rfl⟩ := h
  rfl

theorem nonneg (h : d.Magnitude negative x) : 0 ≤ x := by
  obtain ⟨m, e, rfl, rfl⟩ := h
  exact mul_nonneg m.cast_nonneg (two_zpow_pos e).le

theorem divide (h : d.Magnitude negative x) {k : ℕ} (hk : 0 < k) (hlt : x / k < limit) :
    ∃ s, (d.divide k).Magnitude negative s ∧ RoundsTo (x / k) s := by
  obtain ⟨m, e, rfl, rfl⟩ := h
  have hfraction : ((fraction m e).1 : ℚ) / ((fraction m e).2 * k : ℕ) = m * 2 ^ e / k := by
    rw [Nat.cast_mul, ← div_div, fraction_div]
  rw [← hfraction] at hlt ⊢
  exact exists_magnitude_nearest negative _ (Nat.mul_pos (fraction_den_pos m e) hk) hlt

theorem scale (h : d.Magnitude negative x) {k : ℕ} (hlt : x * k < limit) :
    ∃ s, (d.scale k).Magnitude negative s ∧ RoundsTo (x * k) s := by
  obtain ⟨m, e, rfl, rfl⟩ := h
  have hfraction : ((fraction m e).1 * k : ℕ) / ((fraction m e).2 : ℚ) = m * 2 ^ e * k := by
    rw [Nat.cast_mul, mul_div_right_comm, fraction_div]
  rw [← hfraction] at hlt ⊢
  exact exists_magnitude_nearest negative _ (fraction_den_pos m e) hlt

/-- The difference of two doubles, of which the first is not the smaller one. -/
theorem subtract (h : d.Magnitude false x) (h' : d'.Magnitude false y) (hle : y ≤ x)
    (hlt : x - y < limit) :
    ∃ s, (d.subtract d').Magnitude false s ∧ RoundsTo (x - y) s := by
  obtain ⟨m, e, rfl, rfl⟩ := h
  obtain ⟨n, f, rfl, rfl⟩ := h'
  have hm := fraction_div m e
  have hn := fraction_div n f
  have hm_pos : (0 : ℚ) < (fraction m e).2 := by exact_mod_cast fraction_den_pos m e
  have hn_pos : (0 : ℚ) < (fraction n f).2 := by exact_mod_cast fraction_den_pos n f
  set difference : ℤ := (fraction m e).1 * (fraction n f).2 - (fraction n f).1 * (fraction m e).2
    with hdifference
  have hvalue : (difference : ℚ) / ((fraction m e).2 * (fraction n f).2 : ℕ) =
      m * 2 ^ e - n * 2 ^ f := by
    rw [← hm, ← hn, hdifference]
    push_cast
    field_simp
  have hnonneg : 0 ≤ difference := by
    have hquotient : (0 : ℚ) ≤ difference / ((fraction m e).2 * (fraction n f).2 : ℕ) := by
      rw [hvalue]
      linarith
    rw [Nat.cast_mul, le_div_iff₀ (mul_pos hm_pos hn_pos), zero_mul] at hquotient
    exact_mod_cast hquotient
  have habs : ((difference.natAbs : ℕ) : ℚ) = difference := by
    rw [Nat.cast_natAbs, abs_of_nonneg hnonneg]
  have hsubtract : (Double.finite false m e).subtract (.finite false n f) =
      nearest (decide (difference < 0) || (difference == 0 && false && !false))
        difference.natAbs ((fraction m e).2 * (fraction n f).2) := rfl
  have hsign : (decide (difference < 0) || (difference == 0 && false && !false)) = false := by
    simp [hnonneg]
  rw [hsubtract, hsign, ← hvalue, ← habs]
  rw [← hvalue, ← habs] at hlt
  exact exists_magnitude_nearest false _
    (Nat.mul_pos (fraction_den_pos m e) (fraction_den_pos n f)) hlt

theorem below_iff (h : d.Magnitude negative x) (hsign : negative = true → x = 0) {k : ℕ}
    (hk : 0 < k) : d.below k = true ↔ x < k := by
  obtain ⟨m, e, rfl, rfl⟩ := h
  have hpos : (0 : ℚ) < (fraction m e).2 := by exact_mod_cast fraction_den_pos m e
  have hlt : (fraction m e).1 < k * (fraction m e).2 ↔ (m * 2 ^ e : ℚ) < k := by
    rw [← fraction_div, div_lt_iff₀ hpos]
    exact_mod_cast Iff.rfl
  have hbelow : (Double.finite negative m e).below k =
      (negative || decide ((fraction m e).1 < k * (fraction m e).2)) := rfl
  rw [hbelow, Bool.or_eq_true, decide_eq_true_iff, hlt, or_iff_right_iff_imp]
  intro hnegative
  rw [hsign hnegative]
  exact_mod_cast hk

/-- The whole part of a double that is not too large. -/
theorem floorWord (h : d.Magnitude false x) (hlt : x < 2 ^ 64) : d.floorWord = ⌊x⌋₊ := by
  obtain ⟨m, e, rfl, rfl⟩ := h
  have hfloor : ⌊(m * 2 ^ e : ℚ)⌋₊ = (fraction m e).1 / (fraction m e).2 := by
    rw [← fraction_div, Nat.floor_div_eq_div]
  have hword : ⌊(m * 2 ^ e : ℚ)⌋₊ < 2 ^ 64 :=
    (Nat.floor_lt' (by decide)).mpr (by exact_mod_cast hlt)
  have hmin : (Double.finite false m e).floorWord =
      min ((fraction m e).1 / (fraction m e).2) maxWord := rfl
  rw [hmin, ← hfloor, min_eq_left]
  exact Nat.le_sub_one_of_lt hword

/-- The text of a double says its nearest decimal. -/
theorem toList_fixed (h : d.Magnitude negative x) (places : ℕ) :
    ∃ units, IsNearest units (x * 10 ^ places) ∧
      (d.fixed places).toList = (if negative then ['-'] else []) ++ ofUnits places units := by
  obtain ⟨m, e, rfl, rfl⟩ := h
  obtain ⟨units, hunits, hlist, -⟩ := read?_fixed places (fraction m e).1 (fraction_den_pos m e)
  rw [fraction_div] at hunits
  refine ⟨units, hunits, ?_⟩
  have hfixed : (Double.finite negative m e).fixed places = (if negative then "-" else "") ++
      Decimal.fixed places (fraction m e).1 (fraction m e).2 := rfl
  rw [hfixed, String.toList_append, hlist]
  cases negative <;> rfl

end Magnitude

end Reclaim.Double
