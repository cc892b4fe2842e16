import Mathlib
import Reclaim.Proofs.Amount.Accuracy

/-!
# Where a rounded amount reaches the next unit

The unit of an amount is chosen before its number is rounded.  So the number of a size reaches 1024
just below the next unit, and a duration 1000 milliseconds, 60 seconds, or 60 seconds of a minute.
How close an amount has to be for that is half a unit of the last place that is shown; for
milliseconds the product with 1000 is rounded on the way, which lets half a unit of a double more
through.

Minutes are not affected.  A quotient that is not whole could only be rounded up to a whole number
if it were closer to it than a double below `2 ^ 53` can come to a multiple of 60.  So the minutes
are the whole ones, and the rest is exact.

## Main results

* `Amount.Shows.number_eq_iff` : the number of a size reaches 1024.
* `Amount.floor_eq_of_roundsTo` : the whole minutes of a duration.
* `Amount.carry_bands` : which amounts are not carried into the next unit.
-/

namespace Reclaim.Amount

open Decimal Double

/-! ### Sizes -/

/-- The number of a size reaches 1024 where half a unit of the last digit is missing at most. -/
theorem Shows.number_eq_iff {b : ℕ} {s : ℚ} {f : Figure} (h : Shows b s f) (hb : b < 2 ^ 50) :
    f.number = 1024 ↔ 1024 * f.unit - b ≤ f.grain / 2 := by
  obtain rfl := h.rounds.eq_self (representable_natCast (by omega))
  obtain ⟨units, hunits, hnumber⟩ := h.nearest
  have hpos := h.unit_pos
  have hplaces : (0 : ℚ) < 10 ^ f.places := by positivity
  have hlt : b < 1024 * f.unit := by
    have hunit : f.unit = (unitFor b).1 := congrArg Prod.fst h.unit_eq
    exact hunit ▸ lt_mul_unitFor hb
  have hle : f.number ≤ 1024 := h.number_le le_rfl hlt.le
  have heven : Even (1024 * 10 ^ f.places) := Even.mul_right (by decide) _
  have hreach : f.number = 1024 ↔ 1024 * 10 ^ f.places ≤ units := by
    rw [← hle.ge_iff_eq, hnumber, le_div_iff₀ hplaces]
    exact_mod_cast Iff.rfl
  rw [hreach, hunits.le_iff heven, Figure.grain]
  push_cast
  rw [← mul_le_mul_iff_left₀ (div_pos hpos hplaces)]
  have hleft : (1024 * 10 ^ f.places - 1 / 2 : ℚ) * (f.unit / 10 ^ f.places) =
      1024 * f.unit - f.unit / 10 ^ f.places / 2 := by
    field_simp
  have hright : (b / f.unit * 10 ^ f.places : ℚ) * (f.unit / 10 ^ f.places) = b := by
    field_simp
  rw [hleft, hright]
  constructor <;> intro h <;> linarith

/-! ### Whole minutes -/

variable {v s : ℚ}

/-- Dividing a duration by 60 does not round it up to a whole number of minutes. -/
theorem floor_eq_of_roundsTo (hv : Representable v) (hmin : 60 ≤ v) (hmax : v < 2 ^ 53)
    (hs : RoundsTo (v / 60) s) : ⌊s⌋₊ = ⌊v / 60⌋₊ := by
  set k := ⌊v / 60⌋₊ with hk
  have hk_le : (k : ℚ) ≤ v / 60 := Nat.floor_le (by linarith)
  have hlt_k : v / 60 < k + 1 := Nat.lt_floor_add_one _
  have hk_small : k < 2 ^ 53 := by
    have hk' : (k : ℚ) < 2 ^ 53 := by linarith
    exact_mod_cast hk'
  have hlower : (k : ℚ) ≤ s := hs.double_le (representable_natCast hk_small) hk_le
  rw [Nat.floor_eq_iff (by linarith [k.cast_nonneg (α := ℚ)])]
  refine ⟨hlower, ?_⟩
  by_contra! hupper
  obtain ⟨e, n, hunit, -, -⟩ := id hs
  have hpos := two_zpow_pos e
  have hmin_e : minExponent < e := by
    by_contra! hle
    have hpow : (2 : ℚ) ^ e ≤ 2 ^ (-53 : ℤ) :=
      zpow_le_zpow_right₀ one_le_two (hle.trans (by decide))
    have hlt := hunit.lt
    norm_num at hpow hlt
    linarith
  have hlow := hunit.le hmin_e
  have hmax_e : e ≤ -5 := by
    by_contra! hlt
    have hpow : (2 : ℚ) ^ (-4 : ℤ) ≤ 2 ^ e := zpow_le_zpow_right₀ one_le_two hlt
    norm_num at hpow hlow
    linarith
  have hstep : (2 : ℚ) ^ (e + 5) = 32 * 2 ^ e := by
    rw [zpow_add₀ two_ne_zero]
    norm_num
    ring
  -- the duration has fewer places behind the point than its quotient, and so has 60 times the next
  -- whole number
  have hv_grid : OnGrid (e + 5) v := by
    obtain ⟨m, g, hm, -, rfl⟩ := hv
    refine OnGrid.mono ⟨m, rfl⟩ ?_
    by_contra! hlt
    have hpow : (2 : ℚ) ^ g ≤ 2 ^ (e + 4) := zpow_le_zpow_right₀ one_le_two (by omega)
    rw [zpow_add₀ two_ne_zero] at hpow
    have hm' : (m : ℚ) ≤ 2 ^ 53 := by exact_mod_cast hm.le
    have hle := mul_le_mul hm' hpow (two_zpow_pos g).le (by positivity)
    norm_num at hle hlow
    linarith
  have hnext_grid : OnGrid (e + 5) ((60 * (k + 1) : ℕ) : ℚ) := OnGrid.natCast _ (by omega)
  have hgap := hv_grid.add_le hnext_grid (by push_cast; linarith)
  have hnear := (abs_le.mp (hs.abs_sub_le hunit.lt hmin_e.le)).2
  rw [hstep] at hgap
  push_cast at hgap
  linarith

/-- What is left of a duration behind a whole number of seconds is a double. -/
theorem representable_sub {n : ℕ} (hv : Representable v) (hmax : v < 2 ^ 53) (hn : n ≤ v) :
    Representable (v - n) := by
  obtain ⟨m, g, hm, hg, rfl⟩ := hv
  have hm' : (m : ℚ) < 2 ^ 53 := by exact_mod_cast hm
  have hn' := n.cast_nonneg (α := ℚ)
  rcases le_total g 0 with hle | hle
  · refine representable_of_onGrid hg (OnGrid.sub ⟨m, rfl⟩ (OnGrid.natCast n hle) hn) ?_
    linarith [mul_lt_mul_of_pos_right hm' (two_zpow_pos g)]
  · refine representable_of_onGrid (e := 0) (by decide)
      (OnGrid.sub (OnGrid.mono ⟨m, rfl⟩ hle) (OnGrid.natCast n le_rfl) hn) ?_
    rw [zpow_zero, mul_one]
    linarith

/-! ### Durations -/

variable {d : Double} {negative : Bool}

/-- Below a second, milliseconds are shown. -/
theorem toList_duration_of_lt_one (hd : d.Magnitude negative v) (hsign : negative = true → v = 0)
    (hv : v < 1) : ∃ s n, RoundsTo (v * 1000) s ∧ IsNearest n s ∧
      (duration d).toList = (if negative then ['-'] else []) ++ digits n ++ "ms".toList := by
  have hbelow : d.below 1 = true := by
    rw [hd.below_iff hsign one_pos]
    exact_mod_cast hv
  have hsmall : v * (1000 : ℕ) ≤ 2 ^ 64 := by
    push_cast
    norm_num
    linarith
  obtain ⟨s, hs, hrounds⟩ := hd.scale (lt_limit hsmall)
  obtain ⟨n, hn, htext⟩ := hs.toList_fixed 0
  rw [pow_zero, mul_one] at hn
  refine ⟨s, n, by exact_mod_cast hrounds, hn, ?_⟩
  rw [duration, if_pos hbelow, String.toList_append, htext]
  simp [ofUnits]

/-- Below a minute, seconds with one place are shown. -/
theorem toList_duration_of_lt_sixty (hd : d.Magnitude false v) (hmin : 1 ≤ v) (hmax : v < 60) :
    ∃ units, IsNearest units (v * 10) ∧ (duration d).toList = ofUnits 1 units ++ "s".toList := by
  have hbelow : ¬d.below 1 = true := by
    rw [hd.below_iff (by simp) one_pos]
    exact not_lt.mpr (by exact_mod_cast hmin)
  have hbelow' : d.below 60 = true := by
    rw [hd.below_iff (by simp) (by decide)]
    exact_mod_cast hmax
  obtain ⟨units, hunits, htext⟩ := hd.toList_fixed 1
  refine ⟨units, by simpa using hunits, ?_⟩
  rw [duration, if_neg hbelow, if_pos hbelow', String.toList_append, htext]
  rfl

/-- The minutes of a duration are the whole ones. -/
theorem floorWord_divide_sixty (hd : d.Magnitude false v) (hdouble : Representable v)
    (hmin : 60 ≤ v) (hmax : v < 2 ^ 53) : (d.divide 60).floorWord = ⌊v / 60⌋₊ := by
  obtain ⟨s, hs, hquotient⟩ := hd.divide (k := 60) (by decide) (lt_limit (by push_cast; linarith))
  have hquotient : RoundsTo (v / 60) s := by exact_mod_cast hquotient
  have hs_lt : s < 2 ^ 64 := by
    have hle := hquotient.le_double (representable_two_zpow (e := 53) (by decide))
      (by norm_num; linarith)
    norm_num at hle ⊢
    linarith
  rw [hs.floorWord hs_lt, floor_eq_of_roundsTo hdouble hmin hmax hquotient]

/-- What is left of a duration behind some whole minutes is not rounded. -/
theorem magnitude_rest (hd : d.Magnitude false v) (hdouble : Representable v) (hmax : v < 2 ^ 53)
    {k : ℕ} (hk : (k : ℚ) * 60 ≤ v) :
    (d.subtract ((Double.ofNat k).scale 60)).Magnitude false (v - k * 60) := by
  have hk_nonneg := k.cast_nonneg (α := ℚ)
  have hproduct_lt : k * 60 < 2 ^ 53 := by
    have hlt : ((k * 60 : ℕ) : ℚ) < 2 ^ 53 := by
      push_cast
      linarith
    exact_mod_cast hlt
  -- the minutes, 60 times the minutes, and the difference are doubles, so that none is changed
  obtain ⟨t, ht, hround⟩ := magnitude_ofNat (n := k) (lt_limit (by linarith))
  obtain rfl := hround.eq_self (representable_natCast (by omega))
  obtain ⟨t, ht', hround⟩ := ht.scale (k := 60) (lt_limit (by push_cast; linarith))
  have hproduct : Representable ((k : ℚ) * (60 : ℕ)) := by
    exact_mod_cast representable_natCast hproduct_lt
  obtain rfl := hround.eq_self hproduct
  obtain ⟨r, hr, hround⟩ := hd.subtract ht' (by exact_mod_cast hk)
    (lt_limit (by linarith [ht'.nonneg]))
  have hrest : Representable (v - (k : ℚ) * (60 : ℕ)) := by
    exact_mod_cast representable_sub (n := k * 60) hdouble hmax (by exact_mod_cast hk)
  obtain rfl := hround.eq_self hrest
  exact_mod_cast hr

/-- From a minute on, the whole minutes are shown and the seconds that are left. -/
theorem duration_of_sixty_le (hd : d.Magnitude false v) (hdouble : Representable v)
    (hmin : 60 ≤ v) (hmax : v < 2 ^ 53) : ∃ n, IsNearest n (v - 60 * ⌊v / 60⌋₊) ∧
      duration d = natural ⌊v / 60⌋₊ ++ "m " ++ natural n ++ "s" := by
  have hbelow {k : ℕ} (hk : 0 < k) (hkv : (k : ℚ) ≤ v) : ¬d.below k = true := by
    rw [hd.below_iff (by simp) hk]
    exact not_lt.mpr hkv
  have hfloor : (⌊v / 60⌋₊ : ℚ) ≤ v / 60 := Nat.floor_le (by linarith)
  have hminutes := floorWord_divide_sixty hd hdouble hmin hmax
  have hrest := magnitude_rest hd hdouble hmax (by linarith : (⌊v / 60⌋₊ : ℚ) * 60 ≤ v)
  obtain ⟨n, hn, htext⟩ := hrest.toList_fixed 0
  rw [pow_zero, mul_one, mul_comm (⌊v / 60⌋₊ : ℚ)] at hn
  have hseconds : (d.subtract ((Double.ofNat ⌊v / 60⌋₊).scale 60)).fixed 0 = natural n := by
    rw [← String.toList_inj, htext]
    simp [natural, ofUnits]
  refine ⟨n, hn, ?_⟩
  rw [duration, if_neg (hbelow one_pos (by push_cast; linarith)),
    if_neg (hbelow (by decide) (by push_cast; linarith))]
  simp only [hminutes, hseconds]

/-! ### The three forms are told apart -/

theorem digits_injective {n m : ℕ} (h : digits n = digits m) : n = m := by
  rw [← Nat.ofDigitChars_ten_toDigits (n := n), ← Nat.ofDigitChars_ten_toDigits (n := m)]
  exact congrArg (Nat.ofDigitChars 10 · 0) h

theorem ofUnits_injective {places n m : ℕ} (h : ofUnits places n = ofUnits places m) : n = m := by
  have hread := congrArg Decimal.read? h
  rw [read?_ofUnits, read?_ofUnits, Option.some.injEq, Prod.mk.injEq,
    div_left_inj' (by positivity)] at hread
  exact_mod_cast hread.1

theorem not_negative (hsign : negative = true → v = 0) (hv : 1 ≤ v) : negative = false := by
  by_contra hnegative
  have hzero := hsign (Bool.eq_true_of_not_eq_false hnegative)
  linarith

theorem notMem_duration_of_lt_one (hd : d.Magnitude negative v) (hsign : negative = true → v = 0)
    (hv : v < 1) {c : Char} (hdigit : c.isDigit = false) (hc : c ∉ ['-', 'm', 's']) :
    c ∉ (duration d).toList := by
  obtain ⟨s, n, -, -, htext⟩ := toList_duration_of_lt_one hd hsign hv
  have hdigits := notMem_of_areDigits (areDigits_digits n) hdigit
  cases negative <;> simp_all

theorem dot_mem_duration (hd : d.Magnitude false v) (hmin : 1 ≤ v) (hmax : v < 60) :
    '.' ∈ (duration d).toList := by
  obtain ⟨units, -, htext⟩ := toList_duration_of_lt_sixty hd hmin hmax
  simp [htext, ofUnits]

theorem space_notMem_duration (hd : d.Magnitude negative v) (hsign : negative = true → v = 0)
    (hmax : v < 60) : ' ' ∉ (duration d).toList := by
  rcases lt_or_ge v 1 with hlt | hge
  · exact notMem_duration_of_lt_one hd hsign hlt (by decide) (by decide)
  · obtain rfl := not_negative hsign hge
    obtain ⟨units, -, htext⟩ := toList_duration_of_lt_sixty hd hge hmax
    simp [htext, space_notMem_ofUnits]

theorem space_mem_minutes (m n : ℕ) :
    ' ' ∈ (natural m ++ "m " ++ natural n ++ "s").toList := by
  simp

theorem space_mem_duration (hd : d.Magnitude false v) (hdouble : Representable v) (hmin : 60 ≤ v)
    (hmax : v < 2 ^ 53) : ' ' ∈ (duration d).toList := by
  obtain ⟨n, -, htext⟩ := duration_of_sixty_le hd hdouble hmin hmax
  exact htext ▸ space_mem_minutes _ _

/-! ### Where the next unit is reached -/

/-- A thousandfold is shown as 1000 from half a unit below on, and before that from half a unit of
its doubles. -/
theorem eq_thousand_iff {n : ℕ} (hs : RoundsTo (v * 1000) s) (hn : IsNearest n s) (hv : v < 1) :
    n = 1000 ↔ 999.5 - 1 / 2 ^ 44 ≤ v * 1000 := by
  have hs_le : s ≤ 1000 := by
    have hle := hs.le_double (representable_natCast (n := 1000) (by decide))
    exact_mod_cast hle (by push_cast; linarith)
  have hn_le : n ≤ 1000 := hn.mono (IsNearest.natCast 1000) (by exact_mod_cast hs_le)
  have hhalf := hs.le_iff (e := -43) (k := 1999 * 2 ^ 42) (by decide) (by decide) (by decide)
    (by decide)
  rw [← hn_le.ge_iff_eq, hn.le_iff (by decide)]
  norm_num at hhalf ⊢
  exact hhalf

theorem duration_eq_milliseconds_iff (hd : d.Magnitude negative v)
    (hsign : negative = true → v = 0) (hdouble : Representable v) (hmax : v < 2 ^ 53) :
    duration d = "1000ms" ↔ 999.5 - 1 / 2 ^ 44 ≤ v * 1000 ∧ v < 1 := by
  rcases lt_or_ge v 1 with hlt | hge
  · obtain ⟨s, n, hs, hn, htext⟩ := toList_duration_of_lt_one hd hsign hlt
    have hword : "1000ms".toList = digits 1000 ++ "ms".toList := by decide
    rw [and_iff_left hlt, ← eq_thousand_iff hs hn hlt, ← String.toList_inj, htext, hword,
      List.append_cancel_right_eq]
    cases negative with
    | false => exact ⟨digits_injective, fun h => h ▸ rfl⟩
    | true =>
      -- nothing with a sign is shown as 1000, and zero is far from it
      have hzero := hsign rfl
      have hne : n ≠ 1000 := by
        rw [Ne, eq_thousand_iff hs hn hlt, hzero]
        norm_num
      refine iff_of_false (fun hdigits => ?_) hne
      have hmem : '-' ∈ digits 1000 := hdigits ▸ List.mem_cons_self ..
      exact absurd hmem (by decide)
  · obtain rfl := not_negative hsign hge
    refine iff_of_false (fun h => ?_) (fun h => absurd h.2 hge.not_gt)
    rcases lt_or_ge v 60 with hlt | hge'
    · have hmem := dot_mem_duration hd hge hlt
      rw [h] at hmem
      exact absurd hmem (by decide)
    · have hmem := space_mem_duration hd hdouble hge' hmax
      rw [h] at hmem
      exact absurd hmem (by decide)

theorem duration_eq_seconds_iff (hd : d.Magnitude negative v)
    (hsign : negative = true → v = 0) (hdouble : Representable v) (hmax : v < 2 ^ 53) :
    duration d = "60.0s" ↔ 59.95 ≤ v ∧ v < 60 := by
  rcases lt_or_ge v 1 with hlt | hge
  · refine iff_of_false (fun h => ?_) (fun h => ?_)
    · have hmem := notMem_duration_of_lt_one hd hsign hlt (c := '.') (by decide) (by decide)
      rw [h] at hmem
      exact hmem (by decide)
    · norm_num at h
      linarith [h.1]
  · obtain rfl := not_negative hsign hge
    rcases lt_or_ge v 60 with hlt | hge'
    · obtain ⟨units, hunits, htext⟩ := toList_duration_of_lt_sixty hd hge hlt
      have hword : "60.0s".toList = ofUnits 1 600 ++ "s".toList := by decide
      have hle : units ≤ 600 := by
        refine hunits.mono (IsNearest.natCast 600) ?_
        push_cast
        linarith
      have hreach : ofUnits 1 units = ofUnits 1 600 ↔ 600 ≤ units :=
        ⟨fun h => (ofUnits_injective h).ge, fun h => by rw [hle.antisymm h]⟩
      rw [and_iff_left hlt, ← String.toList_inj, htext, hword, List.append_cancel_right_eq, hreach,
        hunits.le_iff (by decide)]
      norm_num
      constructor <;> intro h <;> linarith
    · refine iff_of_false (fun h => ?_) (fun h => absurd h.2 hge'.not_gt)
      have hmem := space_mem_duration hd hdouble hge' hmax
      rw [h] at hmem
      exact absurd hmem (by decide)

/-- The seconds behind the minutes reach 60 half a second before the next minute. -/
theorem exists_seconds (hd : d.Magnitude false v) (hdouble : Representable v) (hmin : 60 ≤ v)
    (hmax : v < 2 ^ 53) : ∃ n ≤ 60, duration d = natural ⌊v / 60⌋₊ ++ "m " ++ natural n ++ "s" ∧
      (n = 60 ↔ 59.5 ≤ v - 60 * ⌊v / 60⌋₊) := by
  obtain ⟨n, hn, htext⟩ := duration_of_sixty_le hd hdouble hmin hmax
  have hle : n ≤ 60 := by
    refine hn.mono (IsNearest.natCast 60) ?_
    have hlt := Nat.lt_floor_add_one (v / 60)
    push_cast
    linarith
  refine ⟨n, hle, htext, ?_⟩
  rw [← hle.ge_iff_eq, hn.le_iff (by decide)]
  norm_num

/-- **Where a rounded amount is not carried into the next unit.** A size from 1024 bytes on and
below `2 ^ 50` is shown in the unit that it reaches, with a number from 1 to 1024, and the number is
1024 exactly if at most half a unit of the last digit is missing.  A duration is shown as `1000ms`
exactly if it is below a second and its thousandfold is at least 999.5, or closer to that than half
a unit of a double; as `60.0s` exactly from 59.95 on and below 60 seconds; and from a minute on as
its whole minutes and at most 60 seconds, which are 60 exactly if 59.5 or more are left.  Nothing
else is shown in this form. -/
theorem carry_bands (b : ℕ) (d : Double) (v : ℚ) :
    (1024 ≤ b → b < 2 ^ 50 → ∃ f, read? (size b) = some f ∧ f.unit ≤ b ∧ b < 1024 * f.unit ∧
      1 ≤ f.number ∧ f.number ≤ 1024 ∧ (f.number = 1024 ↔ 1024 * f.unit - b ≤ f.grain / 2)) ∧
    (d.IsBinary64 → d.value? = some v → 0 ≤ v → v < 2 ^ 53 →
      (duration d = "1000ms" ↔ 999.5 - 1 / 2 ^ 44 ≤ v * 1000 ∧ v < 1) ∧
      (duration d = "60.0s" ↔ 59.95 ≤ v ∧ v < 60) ∧
      (v < 60 → ∀ m n, duration d ≠ natural m ++ "m " ++ natural n ++ "s") ∧
      (60 ≤ v → ∃ n ≤ 60, duration d = natural ⌊v / 60⌋₊ ++ "m " ++ natural n ++ "s" ∧
        (n = 60 ↔ 59.5 ≤ v - 60 * ⌊v / 60⌋₊))) := by
  refine ⟨fun hmin hmax => ?_, fun hbits hvalue hzero hmax => ?_⟩
  · obtain ⟨s, f, -, hread, hshows⟩ := exists_shows (hmax.trans (by decide))
    have hunit : f.unit = (unitFor b).1 := congrArg Prod.fst hshows.unit_eq
    have hle : f.unit ≤ b := hunit ▸ unitFor_le (by omega)
    have hlt : b < 1024 * f.unit := hunit ▸ lt_mul_unitFor hmax
    refine ⟨f, hread, hle, hlt, ?_, ?_, hshows.number_eq_iff hmax⟩
    · exact_mod_cast hshows.le_number (n := 1) (by decide) (by omega)
    · exact_mod_cast hshows.number_le le_rfl hlt.le
  · obtain ⟨negative, hd, hsign⟩ := exists_magnitude hvalue hzero
    have hdouble := representable_of_isBinary64 hbits hd
    refine ⟨duration_eq_milliseconds_iff hd hsign hdouble hmax,
      duration_eq_seconds_iff hd hsign hdouble hmax, fun hlt m n htext => ?_, fun hmin => ?_⟩
    · have hnot := space_notMem_duration hd hsign hlt
      rw [htext] at hnot
      exact hnot (space_mem_minutes m n)
    · obtain rfl := not_negative hsign (by linarith)
      exact exists_seconds hd hdouble hmin hmax

/-- Amounts that are not carried: a byte short of a megabyte, and durations of 0.9996, 59.96 and
119.7 seconds. -/
theorem carry_bands_shortfalls :
    size 1048575 = "1024.0 KB" ∧ duration (nearest false 9996 10000) = "1000ms" ∧
      duration (nearest false 5996 100) = "60.0s" ∧
      duration (nearest false 1197 10) = "1m 60s" := by
  decide +kernel

end Reclaim.Amount
