import Abacus.Proofs.Decimal.Reading
import Abacus.Proofs.Display

/-!
# Return — what is read back from the text of a result

A text with all places is read as the double that it was made from, and a text in exponential form as the
double nearest to its eleven digits.  Either way no more is lost than the last of them, with one exception:
the eleven digits of the greatest doubles are `1.7976931349e+308`, which is past all finite ones.  The
headline `isReadBack_result_iff` says which numbers come back.
-/

namespace Abacus.Display

open Decimal (firstPlace rounded stepsAt)
open Magnitude (one units)

/-! ## The greatest results -/

/-- The greatest number whose first eleven digits, rounded, are those of a finite double. -/
def greatestReadBack : ℕ :=
  179769313485 * 10 ^ 297

/-- These eleven digits. -/
def greatestDigits : ℕ :=
  17976931348

/-- Whole steps are a whole number. -/
theorem steps_mul_eq (steps places : ℕ) :
    (steps : ℚ) * (10 : ℚ) ^ (places : ℤ) = (steps * 10 ^ places : ℕ) := by
  rw [zpow_natCast]
  push_cast
  rfl

theorem half_steps_eq {limit steps : ℕ} (places : ℕ) (h : 2 * limit = (2 * steps + 1) * 10 ^ places) :
    (limit : ℚ) = (steps + 1 / 2) * (10 : ℚ) ^ (places : ℤ) := by
  have hcast : 2 * (limit : ℚ) = (2 * steps + 1) * 10 ^ places := by exact_mod_cast h
  rw [zpow_natCast]
  linarith

/-- The greatest number is half-way between two numbers of eleven digits. -/
theorem greatestReadBack_eq :
    (greatestReadBack : ℚ) = (greatestDigits + 1 / 2) * (10 : ℚ) ^ (298 : ℤ) :=
  half_steps_eq 298 (by decide +kernel)

section Rounding

variable {m : Magnitude}

/-- The place of the first digit of the greatest doubles. -/
theorem firstPlace_eq (h : (10 : ℚ) ^ (308 : ℤ) ≤ m.toRat) : firstPlace m = 308 := by
  have hlong : Magnitude.overflow ≤ 10 ^ 309 := by decide +kernel
  have hhigh : m.toRat < (10 : ℚ) ^ (309 : ℤ) := m.toRat_lt_overflow.trans_le (by exact_mod_cast hlong)
  have hpos : m.index ≠ 0 := Magnitude.toRat_pos_iff.mp ((zpow_pos (by norm_num) _).trans_le h)
  exact Decimal.leadingPlace_eq (Magnitude.units_pos hpos) Magnitude.one_pos h hhigh

/-- As the lesser one of the two is even, the greatest number is rounded down. -/
theorem stepsAt_le_iff : stepsAt m 298 ≤ greatestDigits ↔ m.toRat ≤ greatestReadBack := by
  rw [stepsAt, Decimal.divideToEven_le_iff (Decimal.inSteps_pos _ Magnitude.one_pos 298) (by decide),
    Decimal.inSteps_units, div_le_iff₀ (zpow_pos (by norm_num) _), greatestReadBack_eq]

/-- The greatest doubles, rounded to eleven digits. -/
theorem toRat_rounded_eq (hpos : m.index ≠ 0) (h : (10 : ℚ) ^ (308 : ℤ) ≤ m.toRat) :
    (rounded defaultPlaces m).toRat = (stepsAt m 298 * 10 ^ 298 : ℕ) := by
  rw [Decimal.toRat_rounded hpos, firstPlace_eq h]
  exact steps_mul_eq _ 298

/-- Up to the greatest number the eleven digits are not past the finite doubles. -/
theorem toRat_rounded_le (hpos : m.index ≠ 0) (h : m.toRat ≤ greatestReadBack) :
    (rounded defaultPlaces m).toRat ≤ Magnitude.greatest := by
  rcases lt_or_ge m.toRat ((10 : ℚ) ^ (308 : ℤ)) with hless | hge
  · have hoff := (abs_le.mp (Decimal.abs_toRat_rounded_sub_le hpos defaultPlaces)).2
    have hroom : ((3 : ℕ) : ℚ) * (10 : ℚ) ^ (308 : ℤ) ≤ (2 * Magnitude.greatest : ℕ) :=
      (steps_mul_eq 3 308).trans_le (Nat.cast_le.mpr (by decide +kernel))
    generalize (10 : ℚ) ^ (308 : ℤ) = power at hless hroom
    rw [show defaultPlaces = 10 from rfl] at hoff ⊢
    push_cast at hroom
    linarith [m.toRat_nonneg]
  · rw [toRat_rounded_eq hpos hge, Nat.cast_le]
    exact (Nat.mul_le_mul_right _ (stepsAt_le_iff.mpr h)).trans (by decide +kernel)

/-- Beyond it they are. -/
theorem le_toRat_rounded (h : greatestReadBack < m.toRat) :
    Magnitude.overflow ≤ (rounded defaultPlaces m).toRat := by
  have hlong : 10 ^ 308 ≤ greatestReadBack := by decide +kernel
  have hge : (10 : ℚ) ^ (308 : ℤ) ≤ m.toRat := le_trans (by exact_mod_cast hlong) h.le
  have hpos : m.index ≠ 0 := Magnitude.toRat_pos_iff.mp ((Nat.cast_nonneg _).trans_lt h)
  rw [toRat_rounded_eq hpos hge, Nat.cast_le]
  have hsteps : greatestDigits + 1 ≤ stepsAt m 298 := Nat.lt_of_not_le fun hle =>
    absurd h (not_lt.mpr (stepsAt_le_iff.mp hle))
  exact le_trans (by decide +kernel) (Nat.mul_le_mul_right _ hsteps)

end Rounding

/-! ## Reading -/

/-- The text is read as a finite double that is close to the number: off by not more than its billionth
part, or than ten to the minus tenth. -/
def IsReadBack (text : String) (v : ℚ) : Prop :=
  ∃ w r, Number.parse text = some w ∧ w.toRat? = some r ∧ |r - v| ≤ max (|v| / 10 ^ 9) (1 / 10 ^ 10)

section Reading

variable {negative : Bool} {m m' : Magnitude} {text : String}

/-- With the same sign the magnitudes tell whether two doubles are close. -/
theorem isReadBack_of_parse {v : ℚ} (hv : (Double.finite negative m).toRat? = some v)
    (hparse : Number.parse text = some (.finite negative m'))
    (hoff : |m'.toRat - m.toRat| ≤ 6 / 10 ^ 11 + m.toRat / 10 ^ 10) : IsReadBack text v := by
  obtain rfl := Option.some.inj hv
  refine ⟨_, _, hparse, rfl, ?_⟩
  rw [Double.abs_signed_sub, Double.abs_signed negative m.toRat_nonneg]
  have hrelative := le_max_left (m.toRat / 10 ^ 9) (1 / 10 ^ 10)
  have habsolute := le_max_right (m.toRat / 10 ^ 9) (1 / 10 ^ 10)
  linarith [m.toRat_nonneg]

/-- A positional text is read as the double that it was made from. -/
theorem parse_plain (negative : Bool) (m : Magnitude) :
    Number.parse (Double.finite negative m).plain = some (.finite negative m) := by
  rw [Number.parse_of_denotes (Double.denotes_plain negative m),
    (Decimal.nearest_shortest .up m).round_eq negative]

/-- An exponential text is read as the double nearest to its digits. -/
theorem parse_exponential (places : ℕ) (negative : Bool) (hpos : m.index ≠ 0) :
    Number.parse ((Double.finite negative m).exponential true places) =
      some (.round negative ((rounded places m).quotient.1 * one) (rounded places m).quotient.2) :=
  Number.parse_of_denotes (Double.denotes_rounded true places negative hpos)

/-- A text of eleven digits is read as a double close by, unless the digits are past the finite ones. -/
theorem isReadBack_exponential_iff {v : ℚ} (hv : (Double.finite negative m).toRat? = some v)
    (hpos : m.index ≠ 0) :
    IsReadBack ((Double.finite negative m).exponential true defaultPlaces) v ↔
      m.toRat ≤ greatestReadBack := by
  have hparse := parse_exponential defaultPlaces negative hpos
  constructor
  · rintro ⟨w, r, hw, hr, -⟩
    by_contra hmore
    rw [hparse, Decimal.round_of_le (le_toRat_rounded (not_le.mp hmore))] at hw
    obtain rfl := Option.some.inj hw
    exact nomatch hr
  · intro hle
    obtain ⟨m', hround, hread⟩ := Decimal.exists_round_of_le negative (toRat_rounded_le hpos hle)
    rw [hround] at hparse
    refine isReadBack_of_parse hv hparse ?_
    have hdigits := Decimal.abs_toRat_rounded_sub_le hpos defaultPlaces
    have htiny := Magnitude.half_unit_le
    rw [show defaultPlaces = 10 from rfl] at hread hdigits
    rw [abs_le] at hread hdigits ⊢
    constructor <;> linarith [m.toRat_nonneg]

/-- The text of a zero is read as a zero. -/
theorem isReadBack_zero : IsReadBack "0" 0 := by
  have hzero : Double.zeroMagnitude.toRat = 0 := Magnitude.toRat_eq_zero rfl
  have hvalue : (Double.zero false).toRat? = some 0 := congrArg some hzero
  refine isReadBack_of_parse hvalue (parse_plain false Double.zeroMagnitude) ?_
  rw [hzero]
  norm_num

end Reading

/-- **What is read back**: the number of a finite double comes back from its text, up to the last digit of
the text, unless the text rounds it past the finite doubles. -/
theorem isReadBack_result_iff {value : Double} {v : ℚ} (h : value.toRat? = some v) :
    IsReadBack (result value) v ↔ |v| ≤ greatestReadBack := by
  obtain ⟨negative, m, rfl, habs, -⟩ := Double.exists_of_toRat? h
  by_cases hpos : m.index = 0
  · have hv : v = 0 := abs_eq_zero.mp (habs.trans (Magnitude.toRat_eq_zero hpos))
    rw [result_of_index_eq_zero negative hpos, hv, abs_zero]
    exact iff_of_true isReadBack_zero (Nat.cast_nonneg _)
  rw [habs]
  by_cases hextreme : isExtreme (.finite negative m) = true
  · rw [result, withPlaces_of_isExtreme hextreme]
    exact isReadBack_exponential_iff h hpos
  · obtain ⟨m', hplain, -, -, hoff⟩ := exists_result_eq_plain hextreme hpos
    rw [hplain]
    refine iff_of_true (isReadBack_of_parse h (parse_plain negative m') ?_) ?_
    · linarith [m.toRat_nonneg]
    · rw [isExtreme_iff, not_or, not_lt] at hextreme
      have hlong : 10 ^ 10 ≤ greatestReadBack := by decide +kernel
      exact hextreme.1.trans (by exact_mod_cast hlong)

example : result (.finite false ⟨Magnitude.count - 1, by decide⟩) = "1.7976931349e+308" := by
  decide +kernel

example : Number.parse "1.7976931349e+308" = some (.infinite false) := by decide +kernel

/-- The least number above zero is read back. -/
theorem isReadBack_result_least :
    (Double.finite false ⟨1, by decide⟩).toRat? = some (1 / (one : ℚ)) ∧
      IsReadBack (result (.finite false ⟨1, by decide⟩)) (1 / one) := by
  have hone : (1 : ℚ) ≤ one := by exact_mod_cast Magnitude.one_pos
  have hlong : 1 ≤ greatestReadBack := by decide +kernel
  have hleast : (Double.finite false ⟨1, by decide⟩).toRat? = some (1 / (one : ℚ)) := by
    rw [Double.toRat?, Magnitude.toRat, show units 1 = 1 by decide, Nat.cast_one]
    rfl
  refine ⟨hleast, (isReadBack_result_iff hleast).mpr ?_⟩
  rw [abs_of_nonneg (one_div_nonneg.mpr Magnitude.one_pos_rat.le)]
  exact ((div_le_one Magnitude.one_pos_rat).mpr hone).trans (by exact_mod_cast hlong)

/-- The greatest finite double is not. -/
theorem not_isReadBack_result_greatest :
    ¬ ∀ (value : Double) (v : ℚ), value.toRat? = some v → IsReadBack (result value) v := by
  intro h
  let m : Magnitude := ⟨Magnitude.count - 1, by decide⟩
  have hvalue : m.toRat = Magnitude.greatest := Magnitude.toRat_whole Magnitude.units_greatest
  have hback := h (.finite false m) m.toRat rfl
  have hextreme : isExtreme (.finite false m) = true := by
    rw [isExtreme_iff, hvalue]
    have hlong : 10 ^ 10 < Magnitude.greatest := by decide +kernel
    exact Or.inl (by exact_mod_cast hlong)
  rw [result, withPlaces_of_isExtreme hextreme] at hback
  have hle := (isReadBack_exponential_iff rfl (by decide)).mp hback
  rw [hvalue, Nat.cast_le] at hle
  exact absurd hle (by decide +kernel)

end Abacus.Display
