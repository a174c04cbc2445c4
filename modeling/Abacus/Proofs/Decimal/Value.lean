import Mathlib.Algebra.Order.Field.Basic
import Mathlib.Data.Rat.Cast.Order
import Mathlib.Tactic.IntervalCases
import Mathlib.Tactic.Positivity
import Mathlib.Tactic.Ring
import Abacus.Decimal.Layout

/-!
# Values — the rational number of a decimal

A decimal stands for a rational number (`toRat`).  Written as a quotient, counted in steps of a
power of ten, or stripped of the zeros at its end, it stands for the same one, and the place of the
first digit of a quotient is told by its size.
-/

namespace Abacus.Decimal

/-- The number that the decimal stands for. -/
def toRat (d : Decimal) : ℚ :=
  d.digits * (10 : ℚ) ^ d.exponent

theorem toRat_nonneg (d : Decimal) : 0 ≤ d.toRat :=
  mul_nonneg (Nat.cast_nonneg _) (zpow_nonneg (by norm_num) _)

/-! ## Quotients -/

theorem quotient_pos (d : Decimal) : 0 < d.quotient.2 := by
  rw [quotient]
  split
  · exact Nat.one_pos
  · exact Nat.pow_pos (by decide)

/-- A decimal without a fraction is a whole number over one. -/
theorem quotient_natCast (digits places : ℕ) :
    quotient ⟨digits, places⟩ = (digits * 10 ^ places, 1) := by
  rw [quotient, if_pos (Int.natCast_nonneg places)]
  rfl

/-- As a quotient a decimal is the same number. -/
theorem quotient_eq (d : Decimal) : (d.quotient.1 : ℚ) / d.quotient.2 = d.toRat := by
  obtain ⟨digits, exponent⟩ := d
  rw [quotient, toRat]
  rcases le_or_gt 0 exponent with hnonneg | hneg
  · obtain ⟨n, rfl⟩ := Int.eq_ofNat_of_zero_le hnonneg
    rw [if_pos hnonneg]
    show ((digits * 10 ^ n : ℕ) : ℚ) / ((1 : ℕ) : ℚ) = digits * (10 : ℚ) ^ (n : ℤ)
    rw [zpow_natCast]
    push_cast
    ring
  · obtain ⟨n, rfl⟩ : ∃ n : ℕ, exponent = -n := ⟨(-exponent).toNat, by omega⟩
    rw [if_neg (not_le.mpr hneg), neg_neg]
    show (digits : ℚ) / ((10 ^ n : ℕ) : ℚ) = digits * (10 : ℚ) ^ (-(n : ℤ))
    rw [zpow_neg, zpow_natCast]
    push_cast
    ring

/-- A quotient counted in steps is the quotient over the length of a step. -/
theorem inSteps_eq (num den : ℕ) (place : ℤ) :
    ((inSteps num den place).1 : ℚ) / (inSteps num den place).2 =
      num / den / (10 : ℚ) ^ place := by
  rw [inSteps]
  rcases le_or_gt 0 place with hnonneg | hneg
  · obtain ⟨n, rfl⟩ := Int.eq_ofNat_of_zero_le hnonneg
    rw [if_pos hnonneg]
    show (num : ℚ) / ((den * 10 ^ n : ℕ) : ℚ) = num / den / (10 : ℚ) ^ (n : ℤ)
    rw [zpow_natCast, div_div]
    push_cast
    rfl
  · obtain ⟨n, rfl⟩ : ∃ n : ℕ, place = -n := ⟨(-place).toNat, by omega⟩
    rw [if_neg (not_le.mpr hneg), neg_neg]
    show ((num * 10 ^ n : ℕ) : ℚ) / (den : ℚ) = num / den / (10 : ℚ) ^ (-(n : ℤ))
    rw [zpow_neg, zpow_natCast, div_inv_eq_mul]
    push_cast
    ring

/-- Numbers over one denominator are all counted in the same steps. -/
theorem exists_inSteps_eq {den : ℕ} (hden : 0 < den) (place : ℤ) :
    ∃ scale step, 0 < scale ∧ 0 < step ∧ ∀ num, inSteps num den place = (num * scale, step) := by
  rcases le_or_gt 0 place with hnonneg | hneg
  · refine ⟨1, den * 10 ^ place.toNat, Nat.one_pos, Nat.mul_pos hden (Nat.pow_pos (by decide)),
      fun num => ?_⟩
    rw [inSteps, if_pos hnonneg, Nat.mul_one]
    rfl
  · refine ⟨10 ^ (-place).toNat, den, Nat.pow_pos (by decide), hden, fun num => ?_⟩
    rw [inSteps, if_neg (not_le.mpr hneg)]
    rfl

/-! ## Zeros at the end -/

/-- Stripping changes the number neither in value nor to more digits. -/
theorem toRat_stripped (d : Decimal) :
    d.stripped.toRat = d.toRat ∧ d.exponent ≤ d.stripped.exponent := by
  fun_induction stripped d with
  | case1 d h ih =>
      obtain ⟨hvalue, hexponent⟩ := ih
      refine ⟨hvalue.trans ?_, Int.le_trans (Int.le_of_lt (Int.lt_succ _)) hexponent⟩
      have hdigits : d.digits = 10 * (d.digits / 10) := by omega
      have hten : (10 : ℚ) ≠ 0 := by norm_num
      have hcast : (d.digits : ℚ) = 10 * ((d.digits / 10 : ℕ) : ℚ) := by exact_mod_cast hdigits
      rw [toRat, toRat, hcast, zpow_add_one₀ hten]
      ring
  | case2 d h => exact ⟨rfl, le_refl _⟩

/-- No zeros are left at the end. -/
theorem digits_stripped_mod {d : Decimal} (h : d.stripped.digits ≠ 0) :
    d.stripped.digits % 10 ≠ 0 := by
  fun_induction stripped d with
  | case1 d _ ih => exact ih h
  | case2 d hlast => exact fun hzero => hlast ⟨h, hzero⟩

/-! ## The first digit -/

/-- A whole number is less than the power of ten with one more digit. -/
theorem lt_pow_length_numeral (n : ℕ) : n < 10 ^ (numeral n).length :=
  (Nat.length_toDigits_le_iff (by decide) Nat.length_toDigits_pos).mp (Nat.le_refl _)

/-- A whole number other than zero is at least the power of ten with as many digits. -/
theorem pow_length_numeral_le {n : ℕ} (h : n ≠ 0) : 10 ^ ((numeral n).length - 1) ≤ n := by
  rcases Nat.eq_zero_or_pos ((numeral n).length - 1) with hzero | hpos
  · rw [hzero]
    exact Nat.pos_of_ne_zero h
  · refine Nat.le_of_not_lt fun hless => ?_
    have hlength : (numeral n).length ≤ (numeral n).length - 1 :=
      (Nat.length_toDigits_le_iff (by decide) hpos).mpr hless
    omega

/-- The number of digits of a whole number is told by the powers of ten around it. -/
theorem length_numeral {n k : ℕ} (hlow : 10 ^ k ≤ n) (hhigh : n < 10 ^ (k + 1)) :
    (numeral n).length = k + 1 := by
  have hn : n ≠ 0 := by
    rintro rfl
    exact absurd hlow (Nat.not_le.mpr (Nat.pow_pos (by decide)))
  have hless := Nat.pow_lt_pow_iff_right (a := 10) (by decide) |>.mp
    (Nat.lt_of_le_of_lt hlow (lt_pow_length_numeral n))
  have hmore := Nat.pow_lt_pow_iff_right (a := 10) (by decide) |>.mp
    (Nat.lt_of_le_of_lt (pow_length_numeral_le hn) hhigh)
  omega

/-- A quotient is at least one in the place of its first digit. -/
theorem pow_leadingPlace_le {num den : ℕ} (hnum : 0 < num) (hden : 0 < den) :
    (10 : ℚ) ^ leadingPlace num den ≤ num / den := by
  have hcast : (0 : ℚ) < den := by exact_mod_cast hden
  rw [leadingPlace, le_div_iff₀ hcast]
  split
  · next h =>
    have hone : num / den ≠ 0 := (Nat.div_pos h hden).ne'
    have hlength : 0 < (numeral (num / den)).length := Nat.length_toDigits_pos
    have hproduct := (Nat.le_div_iff_mul_le hden).mp (pow_length_numeral_le hone)
    rw [show ((numeral (num / den)).length : ℤ) - 1 = ((numeral (num / den)).length - 1 : ℕ) by omega,
      zpow_natCast]
    exact_mod_cast hproduct
  · have hless := lt_pow_length_numeral ((den - 1) / num)
    generalize (numeral ((den - 1) / num)).length = k at *
    have hproduct : den ≤ num * 10 ^ k := by
      have := (Nat.div_lt_iff_lt_mul hnum).mp hless
      rw [Nat.mul_comm] at this
      omega
    have hpow : (0 : ℚ) < 10 ^ k := by positivity
    rw [zpow_neg, zpow_natCast, inv_mul_le_iff₀ hpow, mul_comm]
    exact_mod_cast hproduct

/-- And it is less than ten there. -/
theorem lt_pow_leadingPlace {num den : ℕ} (hnum : 0 < num) (hden : 0 < den) :
    (num : ℚ) / den < (10 : ℚ) ^ (leadingPlace num den + 1) := by
  have hcast : (0 : ℚ) < den := by exact_mod_cast hden
  rw [leadingPlace, div_lt_iff₀ hcast]
  split
  · next h =>
    have hproduct := (Nat.div_lt_iff_lt_mul hden).mp (lt_pow_length_numeral (num / den))
    rw [sub_add_cancel, zpow_natCast]
    exact_mod_cast hproduct
  · next h =>
    have hsome : (den - 1) / num ≠ 0 := (Nat.div_pos (by omega) hnum).ne'
    have hlength : 0 < (numeral ((den - 1) / num)).length := Nat.length_toDigits_pos
    have hproduct := (Nat.le_div_iff_mul_le hnum).mp (pow_length_numeral_le hsome)
    obtain ⟨k, hk⟩ : ∃ k, (numeral ((den - 1) / num)).length = k + 1 :=
      ⟨_, (Nat.succ_pred hlength.ne').symm⟩
    rw [hk, Nat.add_sub_cancel] at hproduct
    have hpow : (0 : ℚ) < 10 ^ k := by positivity
    rw [hk, show -((k + 1 : ℕ) : ℤ) + 1 = -(k : ℤ) by push_cast; ring, zpow_neg, zpow_natCast,
      lt_inv_mul_iff₀ hpow]
    exact_mod_cast (show 10 ^ k * num < den by omega)

/-- The place of the first digit is told by the powers of ten around the quotient. -/
theorem leadingPlace_eq {num den : ℕ} (hnum : 0 < num) (hden : 0 < den) {place : ℤ}
    (hlow : (10 : ℚ) ^ place ≤ num / den) (hhigh : (num : ℚ) / den < (10 : ℚ) ^ (place + 1)) :
    leadingPlace num den = place := by
  have hten : (1 : ℚ) < 10 := by norm_num
  have hless := (zpow_lt_zpow_iff_right₀ hten).mp (hlow.trans_lt (lt_pow_leadingPlace hnum hden))
  have hmore := (zpow_lt_zpow_iff_right₀ hten).mp ((pow_leadingPlace_le hnum hden).trans_lt hhigh)
  omega

/-- A decimal is at least one in the place of its first digit, and less than ten. -/
theorem toRat_bounds {d : Decimal} (h : d.digits ≠ 0) :
    (10 : ℚ) ^ d.leading ≤ d.toRat ∧ d.toRat < (10 : ℚ) ^ (d.leading + 1) := by
  have hten : (10 : ℚ) ≠ 0 := by norm_num
  have hpos : (0 : ℚ) < (10 : ℚ) ^ d.exponent := zpow_pos (by norm_num) _
  have hlength : 0 < (numeral d.digits).length := Nat.length_toDigits_pos
  have hlow := pow_length_numeral_le h
  have hhigh := lt_pow_length_numeral d.digits
  rw [leading, toRat, zpow_add₀ hten, add_right_comm, zpow_add₀ hten, mul_le_mul_iff_left₀ hpos,
    mul_lt_mul_iff_left₀ hpos, sub_add_cancel, zpow_natCast,
    show ((numeral d.digits).length : ℤ) - 1 = ((numeral d.digits).length - 1 : ℕ) by omega,
    zpow_natCast]
  exact ⟨by exact_mod_cast hlow, by exact_mod_cast hhigh⟩

/-! ## Numerals -/

/-- Zeros at the end of a numeral multiply by a power of ten. -/
theorem numeral_mul_pow {n : ℕ} (h : n ≠ 0) (places : ℕ) :
    numeral (n * 10 ^ places) = numeral n ++ zeros places := by
  induction places with
  | zero => simp [zeros]
  | succ k ih =>
      have hpos : 0 < n * 10 ^ k := Nat.mul_pos (Nat.pos_of_ne_zero h) (Nat.pow_pos (by decide))
      have hten : n * 10 ^ (k + 1) = 10 * (n * 10 ^ k) + 0 := by ring
      have hlast : numeral (10 * (n * 10 ^ k) + 0) = numeral (n * 10 ^ k) ++ ['0'] :=
        (Nat.toDigits_append_toDigits (by decide) hpos (by decide)).symm
      rw [hten, hlast, ih, zeros, zeros, List.replicate_succ', List.append_assoc]

/-- A numeral begins with a zero only if it is that of zero. -/
theorem head_numeral {n : ℕ} (h : n ≠ 0) : (numeral n).head? ≠ some '0' := by
  induction n using Nat.strongRecOn with
  | ind n ih =>
      rcases Nat.lt_or_ge n 10 with hsmall | hlarge
      · rw [numeral, Nat.toDigits_of_lt_base hsmall]
        interval_cases n <;> simp_all [Nat.digitChar]
      · have hne : numeral (n / 10) ≠ [] := Nat.toDigits_ne_nil
        rw [numeral, Nat.toDigits_of_base_le (by decide) hlarge,
          show Nat.toDigits 10 (n / 10) = numeral (n / 10) from rfl, List.head?_append_of_ne_nil _ hne]
        exact ih (n / 10) (by omega) (by omega)

end Abacus.Decimal
