import Abacus.Proofs.Decimal.Numeral
import Abacus.Proofs.Double.Value

/-!
# Reading — a decimal is read as the double nearest to its number

A decimal is not expanded where it is clearly past the finite doubles or clearly nearest to zero, and
this makes no difference (`toDouble_eq_round`).  So what is read for a numeral is told by its sign and its
number (`toDouble_eq_ofRat`), however its digits are set out (`Number.parse_of_denotes`): a finite double
close to the number (`exists_round_of_le`), unless the number is past the finite ones (`round_of_le`).
-/

namespace Abacus

namespace Magnitude

/-- The next number with as many bits in front of as many zeros as the greatest one. -/
def overflow : ℕ :=
  2 * binade * 2 ^ 971

/-- The first magnitude that is not finite. -/
theorem units_count : units count = overflow * one := by
  rw [show count = 2045 * binade + 2 * binade from rfl, units_add (Nat.le_refl _) (Or.inr (by decide)),
    one_eq, overflow, Nat.mul_assoc (2 * binade), ← Nat.pow_add, show 971 + unitPlaces = 2045 from rfl]

/-- Finite magnitudes are less. -/
theorem toRat_lt_overflow (m : Magnitude) : m.toRat < overflow := by
  have hless := units_strictMono m.bounded
  rw [units_count] at hless
  rw [toRat, div_lt_iff₀ one_pos_rat]
  exact_mod_cast hless

end Magnitude

namespace Decimal

open Magnitude (units one nearest)

section Rounding

variable {d : Decimal} {negative : Bool}

/-! ## The double nearest to a decimal -/

/-- A decimal is compared with a quotient as its own quotient is. -/
theorem quotient_le_iff {a b : ℕ} (hb : 0 < b) :
    d.quotient.1 * b ≤ a * d.quotient.2 ↔ d.toRat ≤ a / b := by
  have hden : (0 : ℚ) < d.quotient.2 := by exact_mod_cast quotient_pos d
  have hpos : (0 : ℚ) < b := by exact_mod_cast hb
  rw [← quotient_eq, div_le_div_iff₀ hden hpos]
  exact_mod_cast Iff.rfl

theorem le_quotient_iff {a : ℕ} : a * d.quotient.2 ≤ d.quotient.1 ↔ (a : ℚ) ≤ d.toRat := by
  have hden : (0 : ℚ) < d.quotient.2 := by exact_mod_cast quotient_pos d
  rw [← quotient_eq, le_div_iff₀ hden]
  exact_mod_cast Iff.rfl

/-- A decimal of at most half a unit is nearest to zero. -/
theorem nearest_eq_zero (h : d.toRat ≤ 1 / (2 * one : ℕ)) :
    nearest (d.quotient.1 * one) d.quotient.2 = 0 := by
  have hle := (quotient_le_iff (a := 1) (Nat.mul_pos Nat.two_pos Magnitude.one_pos)).mpr
    (by exact_mod_cast h)
  rw [Magnitude.nearest_eq_iff (quotient_pos d), Magnitude.IsNearest]
  refine ⟨?_, ?_, fun hodd => absurd hodd (by decide)⟩
  · rw [Nat.zero_sub, Magnitude.units_zero, Nat.zero_mul]
    exact Nat.zero_le _
  · rw [show units 0 + units (0 + 1) = 1 by decide]
    rw [Nat.mul_left_comm] at hle
    exact hle

/-- A decimal past the finite doubles is nearest to none of them. -/
theorem round_of_le (h : Magnitude.overflow ≤ d.toRat) :
    Double.round negative (d.quotient.1 * one) d.quotient.2 = .infinite negative := by
  have hcount : units Magnitude.count * d.quotient.2 ≤ d.quotient.1 * one := by
    rw [Magnitude.units_count, Nat.mul_right_comm]
    exact Nat.mul_le_mul_right one (le_quotient_iff.mpr h)
  have hmost := Magnitude.nearest_mono (quotient_pos d) (quotient_pos d)
    (Nat.mul_le_mul_right d.quotient.2 hcount)
  rw [Magnitude.nearest_units _ (quotient_pos d)] at hmost
  rw [Double.round, dif_neg (Nat.not_lt.mpr hmost)]

/-- A decimal that does not exceed the greatest finite double is nearest to one that is close. -/
theorem exists_round_of_le (negative : Bool) (h : d.toRat ≤ Magnitude.greatest) :
    ∃ m : Magnitude, Double.round negative (d.quotient.1 * one) d.quotient.2 = .finite negative m ∧
      |m.toRat - d.toRat| ≤ d.toRat / 2 ^ 53 + 1 / (2 * one) := by
  have hle := (quotient_le_iff (d := d) (a := Magnitude.greatest) Nat.one_pos).mpr
    (by rwa [Nat.cast_one, div_one])
  have hgreatest : d.quotient.1 * one ≤ units (Magnitude.count - 1) * d.quotient.2 := by
    rw [Nat.mul_one] at hle
    rw [Magnitude.units_greatest, Nat.mul_right_comm]
    exact Nat.mul_le_mul_right one hle
  have hbound := Magnitude.nearest_lt_count (quotient_pos d) hgreatest
  refine ⟨⟨_, hbound⟩, dif_pos hbound, ?_⟩
  rw [← quotient_eq]
  exact Magnitude.abs_toRat_nearest_sub_le _ (quotient_pos d)

/-- **A decimal is read** as the double nearest to it. -/
theorem toDouble_eq_round (negative : Bool) (d : Decimal) :
    d.toDouble negative = .round negative (d.quotient.1 * one) d.quotient.2 := by
  have hplaces : ((numeral d.digits).length : ℤ) + d.exponent = d.leading + 1 := by
    rw [leading]
    ring
  have hten : (1 : ℚ) ≤ 10 := by norm_num
  rw [toDouble]
  simp only [hplaces]
  split
  · next hsmall =>
    have hzero : d.toRat ≤ 1 / (2 * one : ℕ) := by
      by_cases hdigits : d.digits = 0
      · rw [toRat, hdigits, Nat.cast_zero, zero_mul]
        exact div_nonneg zero_le_one (Nat.cast_nonneg _)
      · simp only [hdigits, decide_false, Bool.false_or, decide_eq_true_eq] at hsmall
        have hone : 2 * one ≤ 10 ^ 331 := by decide +kernel
        calc d.toRat ≤ (10 : ℚ) ^ (d.leading + 1) := (toRat_bounds hdigits).2.le
          _ ≤ (10 : ℚ) ^ (-331 : ℤ) := zpow_le_zpow_right₀ hten (by omega)
          _ = 1 / (10 ^ 331 : ℕ) := by
              rw [one_div, Nat.cast_pow, Nat.cast_ofNat]
              rfl
          _ ≤ 1 / (2 * one : ℕ) := one_div_le_one_div_of_le (by
              exact_mod_cast Nat.mul_pos Nat.two_pos Magnitude.one_pos) (by exact_mod_cast hone)
    rw [Double.round]
    simp only [nearest_eq_zero hzero]
    rfl
  · next hsmall =>
    have hdigits : d.digits ≠ 0 := by
      intro hdigits
      simp [hdigits] at hsmall
    split
    · next hlarge =>
      refine (round_of_le ?_).symm
      have hlong : Magnitude.overflow ≤ 10 ^ 310 := by decide +kernel
      calc (Magnitude.overflow : ℚ) ≤ (10 : ℚ) ^ (310 : ℤ) := by exact_mod_cast hlong
        _ ≤ (10 : ℚ) ^ d.leading := zpow_le_zpow_right₀ hten (by omega)
        _ ≤ d.toRat := (toRat_bounds hdigits).1
    · rfl

/-- The same, told by the number of the decimal. -/
theorem toDouble_eq_ofRat (negative : Bool) (d : Decimal) :
    d.toDouble negative = .ofRat negative d.toRat := by
  rw [toDouble_eq_round, Double.round_eq_ofRat negative _ (quotient_pos d), quotient_eq]

end Rounding

end Decimal

/-! ## Numerals -/

/-- **A numeral is read** as the double nearest to its number. -/
theorem Number.parse_of_denotes {text : String} {negative : Bool} {d : Decimal}
    (h : Json.Denotes text.toList negative d.toRat) :
    parse text = some (.round negative (d.quotient.1 * Magnitude.one) d.quotient.2) := by
  obtain ⟨n, hn, rfl, hvalue⟩ := h
  obtain ⟨w, -, hparse, hw⟩ := parse_of_isNumeral hn
  rw [hparse, hw, Decimal.toDouble_eq_ofRat, hvalue, ← Decimal.toDouble_eq_ofRat,
    Decimal.toDouble_eq_round]

end Abacus
