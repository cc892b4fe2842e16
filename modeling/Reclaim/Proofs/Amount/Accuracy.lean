import Mathlib
import Reclaim.Amount
import Reclaim.Proofs.Decimal.Doubles

/-!
# Sizes in words are accurate and keep the order

A size is rounded twice: to a double, and to the last place that is shown.  The division in between
is by a power of two and changes nothing but the exponent.  So what is shown is the decimal nearest
to the double, and both roundings keep the order.  From one unit to the next the order is kept
because a number below 1024 is rounded to 1024 at most, which is the next unit, and no size is shown
as less than its unit.

## Main definitions

* `Amount.Figure` : a number with its places and its unit.
* `Amount.read?` : what a shown size says.
* `Amount.unitFor` : the unit of a size, with the places that are shown.
* `Amount.Shows` : a figure is what is shown of a size.

## Main results

* `Amount.exists_shows` : what is shown of a size.
* `Amount.Shows.mono` : the order is kept.
* `Amount.size_accurate` : a shown size is accurate, and larger sizes are not shown as smaller ones.
-/

namespace Reclaim.Amount

open Decimal Double

/-! ### Reading a size -/

/-- A number with some places, in some unit of bytes. -/
structure Figure where
  number : ℚ
  places : ℕ
  unit : ℕ

namespace Figure

/-- The bytes that a figure says. -/
def value (f : Figure) : ℚ :=
  f.number * f.unit

/-- The bytes that one of the last digit stands for. -/
def grain (f : Figure) : ℚ :=
  f.unit / 10 ^ f.places

end Figure

/-- The words for the units. -/
def unitWords : List (String × ℕ) :=
  [("B", 1), ("KB", 2 ^ 10), ("MB", 2 ^ 20), ("GB", 2 ^ 30), ("TB", 2 ^ 40)]

/-- What a shown size says: a decimal, a space and the word for a unit. -/
def read? (text : String) : Option Figure := do
  let (decimal, word) ← Text.cutAt? [' '] text.toList
  let unit ← unitWords.lookup (String.ofList word)
  let (number, places) ← Decimal.read? decimal
  return { number, places, unit }

theorem space_notMem_ofUnits (places units : ℕ) : ' ' ∉ ofUnits places units := by
  have hdigits (n : ℕ) : ' ' ∉ digits n := notMem_of_areDigits (areDigits_digits n) (by decide)
  rw [ofUnits]
  split
  · exact hdigits units
  · rw [List.mem_append, List.mem_cons, not_or, not_or]
    exact ⟨hdigits _, by decide, notMem_of_areDigits (areDigits_digitsPadded ..) (by decide)⟩

/-- A decimal with a unit behind it is read as what it says. -/
theorem read?_append {decimal ending : String} (word : String) {places units unit : ℕ}
    (hdecimal : decimal.toList = ofUnits places units)
    (hending : ending.toList = ' ' :: word.toList)
    (hunit : unitWords.lookup word = some unit) :
    read? (decimal ++ ending) = some ⟨units / 10 ^ places, places, unit⟩ := by
  have hcut : Text.cutAt? [' '] (decimal ++ ending).toList =
      some (ofUnits places units, word.toList) := by
    rw [Text.cutAt?_eq_some_iff, Text.firstAt_iff List.not_mem_nil, List.singleton_infix_iff,
      String.toList_append, hdecimal, hending]
    exact ⟨by simp, space_notMem_ofUnits places units⟩
  simp only [read?, hcut, Option.bind_eq_bind, Option.bind_some, String.ofList_toList, hunit,
    read?_ofUnits]
  rfl

/-! ### The unit of a size -/

/-- The unit in which a size is shown, and the places that are shown in this unit. -/
def unitFor (bytes : ℕ) : ℕ × ℕ :=
  if 2 ^ 40 ≤ bytes then (2 ^ 40, 2)
  else if 2 ^ 30 ≤ bytes then (2 ^ 30, 2)
  else if 2 ^ 20 ≤ bytes then (2 ^ 20, 2)
  else if 2 ^ 10 ≤ bytes then (2 ^ 10, 1)
  else (1, 0)

variable {b b' : ℕ}

theorem unitFor_le (h : 1 ≤ b) : (unitFor b).1 ≤ b := by
  unfold unitFor
  split_ifs <;> omega

theorem unitFor_eq_two_pow (b : ℕ) : ∃ k ≤ 40, (unitFor b).1 = 2 ^ k := by
  unfold unitFor
  split_ifs
  exacts [⟨40, by decide, rfl⟩, ⟨30, by decide, rfl⟩, ⟨20, by decide, rfl⟩, ⟨10, by decide, rfl⟩,
    ⟨0, by decide, rfl⟩]

theorem lt_mul_unitFor (h : b < 2 ^ 50) : b < 1024 * (unitFor b).1 := by
  unfold unitFor
  split_ifs <;> omega

/-- A larger size has the same unit, or one that is not below 1024 of the smaller ones. -/
theorem unitFor_cases (h : b ≤ b') : unitFor b = unitFor b' ∨
    b < 1024 * (unitFor b).1 ∧ 1024 * (unitFor b).1 ≤ (unitFor b').1 := by
  unfold unitFor
  split_ifs <;> first | exact .inl rfl | (right; omega)

/-! ### What is shown -/

/-- The figure is the decimal nearest to the double `s`, which is nearest to the size. -/
structure Shows (b : ℕ) (s : ℚ) (f : Figure) : Prop where
  rounds : RoundsTo b s
  unit_eq : (f.unit, f.places) = unitFor b
  nearest : ∃ units, IsNearest units (s / f.unit * 10 ^ f.places) ∧
    f.number = units / 10 ^ f.places

/-- A double that is at least one can be divided by a power of two. -/
theorem representable_div {s : ℚ} (hs : Representable s) (hone : 1 ≤ s) {k : ℕ} (hk : k ≤ 40) :
    Representable (s / (2 ^ k : ℕ)) := by
  obtain ⟨m, e, hm, -, rfl⟩ := hs
  have hlow : -53 < e := by
    by_contra! hle
    have hpow : (2 : ℚ) ^ e ≤ 2 ^ (-53 : ℤ) := zpow_le_zpow_right₀ one_le_two hle
    have hm' : (m : ℚ) < 2 ^ 53 := by exact_mod_cast hm
    have hpos := two_zpow_pos (-53)
    have hinv : (2 : ℚ) ^ 53 * 2 ^ (-53 : ℤ) = 1 := by norm_num
    nlinarith
  refine ⟨m, e - k, hm, ?_, ?_⟩
  · have hmin : minExponent = -1074 := rfl
    omega
  · rw [zpow_sub₀ two_ne_zero, zpow_natCast, Nat.cast_pow, Nat.cast_ofNat, mul_div_assoc]

/-- A size in a unit is the decimal nearest to its double. -/
theorem exists_inUnit (hb : 1 ≤ b) (h : b < 2 ^ 64) {k : ℕ} (hk : k ≤ 40) (places : ℕ) :
    ∃ s units, (Double.ofNat b).value? = some s ∧ RoundsTo b s ∧
      IsNearest units (s / (2 ^ k : ℕ) * 10 ^ places) ∧
      (inUnit places b (2 ^ k)).toList = ofUnits places units := by
  have hlarge : (b : ℚ) ≤ 2 ^ 64 := by exact_mod_cast h.le
  obtain ⟨s, hs, hrounds⟩ := magnitude_ofNat (lt_limit hlarge)
  have hone : 1 ≤ s := by
    have hle := hrounds.double_le (representable_natCast (n := 1) (by decide))
    exact_mod_cast hle (by exact_mod_cast hb)
  have htop : s ≤ 2 ^ 64 :=
    hrounds.le_double (representable_two_zpow (e := 64) (by decide)) (by exact_mod_cast hlarge)
  have hsmall : s / (2 ^ k : ℕ) ≤ 2 ^ 64 := by
    refine (div_le_self (by linarith) ?_).trans htop
    exact_mod_cast Nat.one_le_two_pow
  obtain ⟨s', hs', hrounds'⟩ := hs.divide (Nat.two_pow_pos k) (lt_limit hsmall)
  obtain rfl := hrounds'.eq_self (representable_div hrounds.representable hone hk)
  obtain ⟨units, hunits, htext⟩ := hs'.toList_fixed places
  exact ⟨s, units, hs.value?, hrounds, hunits, htext⟩

theorem exists_shows_inUnit (hb : 1 ≤ b) (h : b < 2 ^ 64) {k places : ℕ} {ending : String}
    (word : String) (hk : k ≤ 40) (hunit : unitFor b = (2 ^ k, places))
    (hending : ending.toList = ' ' :: word.toList) (hword : unitWords.lookup word = some (2 ^ k)) :
    ∃ s f, (Double.ofNat b).value? = some s ∧
      read? (inUnit places b (2 ^ k) ++ ending) = some f ∧ Shows b s f := by
  obtain ⟨s, units, hs, hrounds, hunits, htext⟩ := exists_inUnit hb h hk places
  exact ⟨s, _, hs, read?_append word htext hending hword, hrounds, hunit.symm, units, hunits, rfl⟩

/-- A shown size is read back as a figure of it. -/
theorem exists_shows (h : b < 2 ^ 64) :
    ∃ s f, (Double.ofNat b).value? = some s ∧ read? (size b) = some f ∧ Shows b s f := by
  have hpow (k : ℕ) : Nat.pow 2 k = 2 ^ k := rfl
  simp only [size, terabyte, gigabyte, megabyte, kilobyte, hpow]
  split_ifs with htera hgiga hmega hkilo
  · exact exists_shows_inUnit (by omega) h "TB" (k := 40) (by decide)
      (by simp only [unitFor, htera, if_true]) (by decide) (by decide)
  · exact exists_shows_inUnit (by omega) h "GB" (k := 30) (by decide)
      (by simp only [unitFor, htera, hgiga, if_true, if_false]) (by decide) (by decide)
  · exact exists_shows_inUnit (by omega) h "MB" (k := 20) (by decide)
      (by simp only [unitFor, htera, hgiga, hmega, if_true, if_false]) (by decide) (by decide)
  · exact exists_shows_inUnit (by omega) h "KB" (k := 10) (by decide)
      (by simp only [unitFor, htera, hgiga, hmega, hkilo, if_true, if_false]) (by decide)
      (by decide)
  · have hlarge : (b : ℚ) ≤ 2 ^ 64 := by exact_mod_cast h.le
    obtain ⟨s, hs, hrounds⟩ := magnitude_ofNat (lt_limit hlarge)
    obtain rfl := hrounds.eq_self (representable_natCast (by omega))
    have htext : (Decimal.natural b).toList = ofUnits 0 b := by simp [Decimal.natural, ofUnits]
    have hread : read? (Decimal.natural b ++ " B") = some ⟨b / 10 ^ 0, 0, 1⟩ :=
      read?_append "B" htext (by decide) (by decide)
    refine ⟨b, _, hs.value?, hread, hrounds, ?_, b, ?_, rfl⟩
    · simp only [unitFor, htera, hgiga, hmega, hkilo, if_false]
    · simpa using IsNearest.natCast b

namespace Shows

variable {s s' : ℚ} {f f' : Figure}

theorem unit_pos (h : Shows b s f) : (0 : ℚ) < f.unit := by
  obtain ⟨k, -, hk⟩ := unitFor_eq_two_pow b
  rw [← h.unit_eq] at hk
  rw [show f.unit = 2 ^ k from hk]
  positivity

/-- The figure is off by half a unit of its last digit, besides the rounding to a double. -/
theorem abs_value_sub_le (h : Shows b s f) : |f.value - s| ≤ f.grain / 2 := by
  obtain ⟨units, hunits, hnumber⟩ := h.nearest
  have hunit := h.unit_pos
  have hplaces : (0 : ℚ) < 10 ^ f.places := by positivity
  have hgrain : 0 < f.grain := div_pos hunit hplaces
  have hvalue : f.value - s = (units - s / f.unit * 10 ^ f.places) * f.grain := by
    rw [Figure.value, Figure.grain, hnumber]
    field_simp
  rw [hvalue, abs_mul, abs_of_pos hgrain]
  linarith [mul_le_mul_of_nonneg_right hunits.near hgrain.le]

theorem exists_unit_eq (h : Shows b s f) : ∃ k ≤ 40, f.unit = 2 ^ k := by
  obtain ⟨k, hk, hunit⟩ := unitFor_eq_two_pow b
  exact ⟨k, hk, by rw [← hunit, ← h.unit_eq]⟩

theorem representable_mul_unit (h : Shows b s f) {n : ℕ} (hn : n ≤ 1024) :
    Representable (n * f.unit) := by
  obtain ⟨k, hk, hunit⟩ := h.exists_unit_eq
  have hpow : 2 ^ k ≤ 2 ^ 40 := Nat.pow_le_pow_right (by decide) hk
  rw [hunit, ← Nat.cast_mul]
  exact representable_natCast (by nlinarith)

/-- A figure reaches a whole number if the size does. -/
theorem le_number (h : Shows b s f) {n : ℕ} (hn : n ≤ 1024) (hle : n * f.unit ≤ b) :
    (n : ℚ) ≤ f.number := by
  obtain ⟨units, hunits, hnumber⟩ := h.nearest
  have hs : n * f.unit ≤ s :=
    h.rounds.double_le (h.representable_mul_unit hn) (by exact_mod_cast hle)
  have hunits_le : n * 10 ^ f.places ≤ units := by
    refine (IsNearest.natCast _).mono hunits ?_
    rw [Nat.cast_mul, Nat.cast_pow, Nat.cast_ofNat]
    exact mul_le_mul_of_nonneg_right ((le_div_iff₀ h.unit_pos).mpr hs) (by positivity)
  rw [hnumber, le_div_iff₀ (by positivity)]
  exact_mod_cast hunits_le

/-- A figure passes a whole number only if the size does. -/
theorem number_le (h : Shows b s f) {n : ℕ} (hn : n ≤ 1024) (hle : b ≤ n * f.unit) :
    f.number ≤ n := by
  obtain ⟨units, hunits, hnumber⟩ := h.nearest
  have hs : s ≤ n * f.unit :=
    h.rounds.le_double (h.representable_mul_unit hn) (by exact_mod_cast hle)
  have hunits_le : units ≤ n * 10 ^ f.places := by
    refine hunits.mono (IsNearest.natCast _) ?_
    rw [Nat.cast_mul, Nat.cast_pow, Nat.cast_ofNat]
    exact mul_le_mul_of_nonneg_right ((div_le_iff₀ h.unit_pos).mpr hs) (by positivity)
  rw [hnumber, div_le_iff₀ (by positivity)]
  exact_mod_cast hunits_le

/-- A larger size is not shown as a smaller one. -/
theorem mono (h : Shows b s f) (h' : Shows b' s' f') (hle : b ≤ b') : f.value ≤ f'.value := by
  rcases unitFor_cases hle with hunit | ⟨hlt, hunit⟩
  · -- in one unit both roundings keep the order
    obtain ⟨units, hunits, hnumber⟩ := h.nearest
    obtain ⟨units', hunits', hnumber'⟩ := h'.nearest
    have hsame := h.unit_eq.trans (hunit.trans h'.unit_eq.symm)
    obtain ⟨hunit_eq, hplaces_eq⟩ := Prod.mk.inj hsame
    rw [← hunit_eq, ← hplaces_eq] at hunits'
    have hs : s ≤ s' := h.rounds.mono h'.rounds (by exact_mod_cast hle)
    have hmono : units ≤ units' := by
      refine hunits.mono hunits' (mul_le_mul_of_nonneg_right ?_ (by positivity))
      exact div_le_div_of_nonneg_right hs h.unit_pos.le
    rw [Figure.value, Figure.value, hnumber, hnumber', ← hunit_eq, ← hplaces_eq]
    refine mul_le_mul_of_nonneg_right ?_ h.unit_pos.le
    exact div_le_div_of_nonneg_right (by exact_mod_cast hmono) (by positivity)
  · -- 1024 of the smaller unit are between the two
    rw [← h.unit_eq] at hlt hunit
    rw [← h'.unit_eq] at hunit
    have hpos : 1 ≤ f.unit := by exact_mod_cast h.unit_pos
    have hb' : f'.unit ≤ b' := by
      have hle' := unitFor_le (b := b') ?_
      · rwa [← h'.unit_eq] at hle'
      · by_contra! hzero
        obtain rfl : b' = 0 := by omega
        have hone : f'.unit = 1 := congrArg Prod.fst h'.unit_eq
        omega
    have hupper := h.number_le le_rfl hlt.le
    have hlower := h'.le_number (n := 1) (by decide) (by omega)
    have hunit' : (1024 : ℚ) * f.unit ≤ f'.unit := by exact_mod_cast hunit
    calc f.value ≤ 1024 * f.unit := mul_le_mul_of_nonneg_right hupper h.unit_pos.le
      _ ≤ f'.unit := hunit'
      _ = ((1 : ℕ) : ℚ) * f'.unit := by rw [Nat.cast_one, one_mul]
      _ ≤ f'.value := mul_le_mul_of_nonneg_right hlower h'.unit_pos.le

end Shows

/-! ### Accuracy -/

/-- **A shown size is accurate and keeps the order.** The text of every 64-bit number of bytes is
read back as a figure.  It is off by half a unit of its last digit at most, besides the rounding of
the number to a double, which changes nothing below `2 ^ 53` and at most 1024 bytes in any case;
and a larger number is never shown as fewer bytes, in whatever units the two are shown. -/
theorem size_accurate : ∃ figure : ℕ → Figure,
    (∀ b < 2 ^ 64, read? (size b) = some (figure b)) ∧
    (∀ b < 2 ^ 64, ∃ s, (Double.ofNat b).value? = some s ∧
      |(figure b).value - b| ≤ (figure b).grain / 2 + |s - b| ∧
      (b < 2 ^ 53 → s = b) ∧ |s - b| ≤ 1024) ∧
    ∀ b b', b ≤ b' → b' < 2 ^ 64 → (figure b).value ≤ (figure b').value := by
  have hfigure (b : ℕ) : ∃ f, b < 2 ^ 64 → ∃ s,
      (Double.ofNat b).value? = some s ∧ read? (size b) = some f ∧ Shows b s f := by
    by_cases h : b < 2 ^ 64
    · obtain ⟨s, f, hf⟩ := exists_shows h
      exact ⟨f, fun _ => ⟨s, hf⟩⟩
    · exact ⟨⟨0, 0, 0⟩, fun h' => absurd h' h⟩
  choose figure hfigure using hfigure
  refine ⟨figure, fun b hb => ?_, fun b hb => ?_, fun b b' hle hb' => ?_⟩
  · obtain ⟨s, -, hread, -⟩ := hfigure b hb
    exact hread
  · obtain ⟨s, hs, -, hshows⟩ := hfigure b hb
    refine ⟨s, hs, ?_, fun hsmall => hshows.rounds.eq_self (representable_natCast hsmall), ?_⟩
    · exact (abs_sub_le _ s _).trans (add_le_add_left hshows.abs_value_sub_le _)
    · have hlt : (b : ℚ) < 2 ^ 53 * 2 ^ (11 : ℤ) := by
        have hpow : (2 : ℚ) ^ 53 * 2 ^ (11 : ℤ) = 2 ^ 64 := by norm_num
        rw [hpow]
        exact_mod_cast hb
      refine (hshows.rounds.abs_sub_le hlt (by decide)).trans ?_
      norm_num
  · obtain ⟨s, -, -, hshows⟩ := hfigure b (hle.trans_lt hb')
    obtain ⟨s', -, -, hshows'⟩ := hfigure b' hb'
    exact hshows.mono hshows' hle

end Reclaim.Amount
