import Abacus.Proofs.Decimal.Value
import Abacus.Proofs.Double.Value

/-!
# Rounded digits — how far a fixed number of digits is off

A quotient is rounded to the nearest whole number (`divideToEven_spec`), and this exceeds an even number
just if the quotient exceeds it by more than a half (`divideToEven_le_iff`).  A magnitude that is cut to
a number of digits has just so many (`digits_rounded`), and it is off by no more than half of the last
one (`abs_toRat_rounded_sub_le`).  Rounding does not go past a power of ten, and so it keeps the order of
magnitudes whose first digits are in different places too (`toRat_rounded_mono`).
-/

namespace Abacus.Decimal

open Magnitude (units one)

/-! ## The nearest whole number -/

/-- The nearest whole number is at most a half away, and less than that if it is odd. -/
theorem divideToEven_spec (num : ℕ) {den : ℕ} (hden : 0 < den) :
    2 * num ≤ 2 * (divideToEven num den * den) + den ∧
      2 * (divideToEven num den * den) ≤ 2 * num + den ∧
      (divideToEven num den % 2 = 1 → 2 * num < 2 * (divideToEven num den * den) + den ∧
        2 * (divideToEven num den * den) < 2 * num + den) := by
  have hdiv := Nat.div_add_mod' num den
  have hmod := Nat.mod_lt num hden
  have hnext : (num / den + 1) * den = num / den * den + den := Nat.succ_mul _ _
  rw [divideToEven]
  split
  · exact ⟨by omega, by omega, fun _ => ⟨by omega, by omega⟩⟩
  · split
    · exact ⟨by omega, by omega, fun _ => ⟨by omega, by omega⟩⟩
    · split
      · exact ⟨by omega, by omega, fun hodd => by omega⟩
      · exact ⟨by omega, by omega, fun hodd => by omega⟩

theorem abs_divideToEven_sub_le (num : ℕ) {den : ℕ} (hden : 0 < den) :
    |(divideToEven num den : ℚ) - num / den| ≤ 1 / 2 :=
  abs_sub_div_le_half hden (divideToEven_spec num hden).1 (divideToEven_spec num hden).2.1

/-- An even whole number is exceeded just by what exceeds it by more than a half. -/
theorem divideToEven_le_iff {num den n : ℕ} (hden : 0 < den) (heven : n % 2 = 0) :
    divideToEven num den ≤ n ↔ (num : ℚ) / den ≤ n + 1 / 2 := by
  have hpos : (0 : ℚ) < den := by exact_mod_cast hden
  have hcount : (num : ℚ) / den ≤ n + 1 / 2 ↔ 2 * num ≤ 2 * (n * den) + den := by
    rw [div_le_iff₀ hpos, ← @Nat.cast_le ℚ]
    push_cast
    constructor <;> intro h <;> linarith
  obtain ⟨hlow, hhigh, hodd⟩ := divideToEven_spec num hden
  rw [hcount]
  constructor
  · intro hle
    have := Nat.mul_le_mul_right den hle
    omega
  · intro hle
    refine Nat.le_of_not_lt fun hless => ?_
    have hnext : (n + 1) * den ≤ divideToEven num den * den := Nat.mul_le_mul_right den hless
    rw [Nat.add_mul, Nat.one_mul] at hnext
    rcases Nat.lt_or_eq_of_le hless with hmore | heq
    · have hafter : (n + 1 + 1) * den ≤ divideToEven num den * den := Nat.mul_le_mul_right den hmore
      rw [Nat.add_mul, Nat.add_mul, Nat.one_mul] at hafter
      omega
    · -- the next whole number is odd
      have := (hodd (by omega)).2
      omega

/-- What the quotient does not exceed is not exceeded. -/
theorem divideToEven_le {num den n : ℕ} (hden : 0 < den) (h : (num : ℚ) / den ≤ n) :
    divideToEven num den ≤ n := by
  have hoff := (abs_le.mp (abs_divideToEven_sub_le num hden)).2
  have hless : (divideToEven num den : ℚ) < (n + 1 : ℕ) := by
    push_cast
    linarith
  exact Nat.lt_succ_iff.mp (by exact_mod_cast hless)

/-- What does not exceed the quotient does not exceed the nearest whole number. -/
theorem le_divideToEven {num den n : ℕ} (hden : 0 < den) (h : (n : ℚ) ≤ num / den) :
    n ≤ divideToEven num den := by
  have hoff := (abs_le.mp (abs_divideToEven_sub_le num hden)).1
  have hless : (n : ℚ) < (divideToEven num den + 1 : ℕ) := by
    push_cast
    linarith
  exact Nat.lt_succ_iff.mp (by exact_mod_cast hless)

/-- The nearest whole number keeps the order. -/
theorem divideToEven_mono {num num' : ℕ} (h : num ≤ num') {den : ℕ} (hden : 0 < den) :
    divideToEven num den ≤ divideToEven num' den := by
  rcases Nat.lt_or_eq_of_le h with hless | rfl
  · refine Nat.le_of_not_lt fun hmore => ?_
    have hnext : (divideToEven num' den + 1) * den ≤ divideToEven num den * den :=
      Nat.mul_le_mul_right den hmore
    rw [Nat.succ_mul] at hnext
    have hupper := (divideToEven_spec num hden).2.1
    have hlower := (divideToEven_spec num' hden).1
    omega
  · exact Nat.le_refl _

/-! ## A fixed number of digits -/

/-- How many steps of the given place a magnitude is, to the nearest. -/
def stepsAt (m : Magnitude) (place : ℤ) : ℕ :=
  divideToEven (inSteps (units m.index) one place).1 (inSteps (units m.index) one place).2

/-- The place of the first digit of a magnitude. -/
def firstPlace (m : Magnitude) : ℤ :=
  leadingPlace (units m.index) one

section Rounding

variable {m : Magnitude}

theorem inSteps_pos (num : ℕ) {den : ℕ} (hden : 0 < den) (place : ℤ) : 0 < (inSteps num den place).2 := by
  rw [inSteps]
  split
  · exact Nat.mul_pos hden (Nat.pow_pos (by decide))
  · exact hden

/-- A magnitude counted in steps. -/
theorem inSteps_units (m : Magnitude) (place : ℤ) :
    ((inSteps (units m.index) one place).1 : ℚ) / (inSteps (units m.index) one place).2 =
      m.toRat / (10 : ℚ) ^ place :=
  inSteps_eq _ _ _

theorem firstPlace_bounds (h : m.index ≠ 0) :
    (10 : ℚ) ^ firstPlace m ≤ m.toRat ∧ m.toRat < (10 : ℚ) ^ (firstPlace m + 1) :=
  ⟨pow_leadingPlace_le (Magnitude.units_pos h) Magnitude.one_pos,
    lt_pow_leadingPlace (Magnitude.units_pos h) Magnitude.one_pos⟩

theorem rounded_of_pos (h : m.index ≠ 0) (places : ℕ) :
    rounded places m =
      if stepsAt m (firstPlace m - places) < 10 ^ (places + 1)
      then ⟨stepsAt m (firstPlace m - places), firstPlace m - places⟩
      else ⟨10 ^ places, firstPlace m - places + 1⟩ := by
  rw [rounded, if_neg h]
  rfl

/-- The magnitude has one digit more than places, or a one with zeros after it and one place more. -/
theorem stepsAt_bounds (h : m.index ≠ 0) (places : ℕ) :
    10 ^ places ≤ stepsAt m (firstPlace m - places) ∧
      stepsAt m (firstPlace m - places) ≤ 10 ^ (places + 1) := by
  obtain ⟨hlow, hhigh⟩ := firstPlace_bounds h
  have hten : (10 : ℚ) ≠ 0 := by norm_num
  have hpos : (0 : ℚ) < (10 : ℚ) ^ (firstPlace m - places) := zpow_pos (by norm_num) _
  have hden := inSteps_pos (units m.index) Magnitude.one_pos (firstPlace m - places)
  constructor
  · refine le_divideToEven hden ?_
    rw [inSteps_units, le_div_iff₀ hpos, Nat.cast_pow, Nat.cast_ofNat, ← zpow_natCast, ← zpow_add₀ hten,
      add_sub_cancel]
    exact hlow
  · refine divideToEven_le hden ?_
    rw [inSteps_units, div_le_iff₀ hpos, Nat.cast_pow, Nat.cast_ofNat, ← zpow_natCast, ← zpow_add₀ hten,
      Nat.cast_add, Nat.cast_one, show (places : ℤ) + 1 + (firstPlace m - places) = firstPlace m + 1 by ring]
    exact hhigh.le

/-- **The digits** of a rounded magnitude are one more than its places. -/
theorem digits_rounded (h : m.index ≠ 0) (places : ℕ) :
    10 ^ places ≤ (rounded places m).digits ∧ (rounded places m).digits < 10 ^ (places + 1) := by
  rw [rounded_of_pos h]
  split
  · next hless => exact ⟨(stepsAt_bounds h places).1, hless⟩
  · exact ⟨Nat.le_refl _, Nat.pow_lt_pow_right (by decide) (Nat.lt_succ_self places)⟩

/-- A rounded magnitude is a number of steps. -/
theorem toRat_rounded (h : m.index ≠ 0) (places : ℕ) :
    (rounded places m).toRat =
      stepsAt m (firstPlace m - places) * (10 : ℚ) ^ (firstPlace m - places) := by
  rw [rounded_of_pos h]
  split
  · rfl
  · next hnot =>
    have hten : (10 : ℚ) ≠ 0 := by norm_num
    rw [Nat.le_antisymm (stepsAt_bounds h places).2 (Nat.le_of_not_lt hnot), toRat, zpow_add_one₀ hten]
    push_cast
    ring

/-- **A rounded magnitude** is off by no more than half of its last digit. -/
theorem abs_toRat_rounded_sub_le (h : m.index ≠ 0) (places : ℕ) :
    |(rounded places m).toRat - m.toRat| ≤ m.toRat / (2 * 10 ^ places) := by
  have hten : (10 : ℚ) ≠ 0 := by norm_num
  have hplaces : (0 : ℚ) < 10 ^ places := by positivity
  have hpos : (0 : ℚ) < (10 : ℚ) ^ (firstPlace m - places) := zpow_pos (by norm_num) _
  have hden := inSteps_pos (units m.index) Magnitude.one_pos (firstPlace m - places)
  have hsteps := abs_divideToEven_sub_le (inSteps (units m.index) one (firstPlace m - places)).1 hden
  rw [inSteps_units] at hsteps
  have hscale : (rounded places m).toRat - m.toRat =
      (stepsAt m (firstPlace m - places) - m.toRat / (10 : ℚ) ^ (firstPlace m - places)) *
        (10 : ℚ) ^ (firstPlace m - places) := by
    rw [toRat_rounded h, sub_mul, div_mul_cancel₀ _ hpos.ne']
  have hlast : (10 : ℚ) ^ (firstPlace m - places) * 10 ^ places ≤ m.toRat := by
    rw [← zpow_natCast, ← zpow_add₀ hten, sub_add_cancel]
    exact (firstPlace_bounds h).1
  rw [hscale, abs_mul, abs_of_pos hpos]
  calc _ ≤ 1 / 2 * (10 : ℚ) ^ (firstPlace m - places) := mul_le_mul_of_nonneg_right hsteps hpos.le
    _ ≤ m.toRat / (2 * 10 ^ places) := by
        rw [le_div_iff₀ (by positivity)]
        linarith

/-! ## The order of rounded magnitudes -/

/-- In steps of one place magnitudes keep their order. -/
theorem stepsAt_mono {m' : Magnitude} (h : m.index ≤ m'.index) (place : ℤ) :
    stepsAt m place ≤ stepsAt m' place := by
  obtain ⟨scale, step, -, hstep, hsteps⟩ := exists_inSteps_eq Magnitude.one_pos place
  rw [stepsAt, stepsAt, hsteps, hsteps]
  exact divideToEven_mono (Nat.mul_le_mul_right scale (Magnitude.units_strictMono.monotone h)) hstep

/-- Rounding does not go below a power of ten. -/
theorem pow_le_toRat_rounded (places : ℕ) (power : ℤ) (h : (10 : ℚ) ^ power ≤ m.toRat) :
    (10 : ℚ) ^ power ≤ (rounded places m).toRat := by
  have hpos : m.index ≠ 0 := Magnitude.toRat_pos_iff.mp ((zpow_pos (by norm_num) _).trans_le h)
  have hten : (10 : ℚ) ≠ 0 := by norm_num
  have hplace : power ≤ firstPlace m := by
    have := (zpow_lt_zpow_iff_right₀ (by norm_num)).mp (h.trans_lt (firstPlace_bounds hpos).2)
    omega
  have hsteps : (10 : ℚ) ^ (places : ℤ) ≤ stepsAt m (firstPlace m - places) := by
    rw [zpow_natCast]
    exact_mod_cast (stepsAt_bounds hpos places).1
  rw [toRat_rounded hpos]
  calc (10 : ℚ) ^ power ≤ (10 : ℚ) ^ (places + (firstPlace m - places)) :=
        zpow_le_zpow_right₀ (by norm_num) (by omega)
    _ = (10 : ℚ) ^ (places : ℤ) * (10 : ℚ) ^ (firstPlace m - places) := zpow_add₀ hten _ _
    _ ≤ _ := mul_le_mul_of_nonneg_right hsteps (zpow_nonneg (by norm_num) _)

/-- Nor above one. -/
theorem toRat_rounded_le_pow (places : ℕ) (power : ℤ) (hpos : m.index ≠ 0)
    (h : m.toRat < (10 : ℚ) ^ power) : (rounded places m).toRat ≤ (10 : ℚ) ^ power := by
  have hten : (10 : ℚ) ≠ 0 := by norm_num
  have hplace : firstPlace m < power :=
    (zpow_lt_zpow_iff_right₀ (by norm_num)).mp ((firstPlace_bounds hpos).1.trans_lt h)
  have hsteps : (stepsAt m (firstPlace m - places) : ℚ) ≤ (10 : ℚ) ^ ((places + 1 : ℕ) : ℤ) := by
    rw [zpow_natCast]
    exact_mod_cast (stepsAt_bounds hpos places).2
  rw [toRat_rounded hpos]
  calc _ ≤ (10 : ℚ) ^ ((places + 1 : ℕ) : ℤ) * (10 : ℚ) ^ (firstPlace m - places) :=
        mul_le_mul_of_nonneg_right hsteps (zpow_nonneg (by norm_num) _)
    _ = (10 : ℚ) ^ (((places + 1 : ℕ) : ℤ) + (firstPlace m - places)) := (zpow_add₀ hten _ _).symm
    _ ≤ (10 : ℚ) ^ power := zpow_le_zpow_right₀ (by norm_num) (by push_cast; omega)

/-- **Rounded magnitudes** keep their order, also where a power of ten comes between them. -/
theorem toRat_rounded_mono {m' : Magnitude} (places : ℕ) (hpos : m.index ≠ 0) (h : m.index ≤ m'.index) :
    (rounded places m).toRat ≤ (rounded places m').toRat := by
  have hpos' : m'.index ≠ 0 := by omega
  obtain ⟨hlow, hhigh⟩ := firstPlace_bounds hpos
  obtain ⟨hlow', hhigh'⟩ := firstPlace_bounds hpos'
  have hplace := (zpow_lt_zpow_iff_right₀ (by norm_num)).mp ((hlow.trans (Magnitude.toRat_le_iff.mpr h)).trans_lt hhigh')
  rcases Int.lt_or_eq_of_le (Int.lt_add_one_iff.mp hplace) with hless | heq
  · calc (rounded places m).toRat ≤ (10 : ℚ) ^ (firstPlace m + 1) := toRat_rounded_le_pow places _ hpos hhigh
      _ ≤ (10 : ℚ) ^ firstPlace m' := zpow_le_zpow_right₀ (by norm_num) hless
      _ ≤ (rounded places m').toRat := pow_le_toRat_rounded places _ hlow'
  · rw [toRat_rounded hpos, toRat_rounded hpos', heq]
    refine mul_le_mul_of_nonneg_right ?_ (zpow_nonneg (by norm_num) _)
    exact_mod_cast stepsAt_mono h _

end Rounding

end Abacus.Decimal
