import Abacus.Wire.Decoding
import Abacus.Proofs.Decimal.Reading
import Abacus.Proofs.Json.Decoder

/-!
# Numbers — a number and the text of it

A number may be sent as it is or in quotes.  In quotes it is read as the double nearest to it.  As it is,
its digits and a power of ten are each rounded to a double before they are multiplied or divided, and the
result may be off in its last place.  It is the nearest double all the same if there is nothing to round
before the end, because the digits and the power are doubles themselves
(`Json.Numeral.toNumber?_of_isExact`).  Then it makes no difference in which of the two ways the number is
sent (`NumberInput.toDouble_decode_eq`).
-/

namespace Abacus

/-! ## Numbers that are doubles -/

/-- The number is that of a finite double. -/
def Double.IsExact (q : ℚ) : Prop :=
  ∃ m : Magnitude, m.toRat = q

namespace Double

theorem isExact_of_units {n i : ℕ} (hle : n ≤ 10 ^ 30) (h : Magnitude.units i = n * Magnitude.one) :
    IsExact n := by
  have hlast := Magnitude.whole_le_greatest hle
  rw [← h, Magnitude.units_strictMono.le_iff_le] at hlast
  have hcount : 0 < Magnitude.count := by decide
  exact ⟨⟨i, by omega⟩, Magnitude.toRat_whole h⟩

/-- Whole numbers of at most fifty-three bits are doubles. -/
theorem isExact_natCast {n : ℕ} (h : n ≤ 2 * Magnitude.binade) : IsExact n :=
  isExact_of_units (h.trans (by decide)) (Magnitude.units_nearest_whole h)

/-- So are the powers of ten with at most twenty-two zeros. -/
theorem isExact_ten_pow {zeros : ℕ} (h : zeros ≤ 22) : IsExact (10 ^ zeros) := by
  have hfive : 5 ^ zeros ≤ 2 * Magnitude.binade :=
    (Nat.pow_le_pow_right (by decide) h).trans (by decide)
  obtain ⟨i, hi⟩ := Magnitude.exists_units_eq hfive (zeros + Magnitude.unitPlaces)
  rw [Nat.pow_add, ← Magnitude.one_eq, ← Nat.mul_assoc, ← Nat.mul_pow] at hi
  have hle : (5 * 2) ^ zeros ≤ 10 ^ 30 := (Nat.pow_le_pow_right (by decide) h).trans (by decide)
  exact_mod_cast isExact_of_units hle hi

/-- A power of ten that is a double has not more than three hundred and eight zeros. -/
theorem IsExact.le_of_ten_pow {zeros : ℕ} (h : IsExact (10 ^ zeros)) : zeros ≤ 308 := by
  obtain ⟨m, hm⟩ := h
  have hless := m.toRat_lt_overflow
  rw [hm] at hless
  have hlong : Magnitude.overflow ≤ 10 ^ 309 := by decide +kernel
  refine Nat.le_of_not_lt fun hmore => hless.not_ge ?_
  rw [← Nat.cast_ofNat, ← Nat.cast_pow, Nat.cast_le]
  exact hlong.trans (pow_le_pow_right₀ (by decide) hmore)

end Double

/-! ## The number of a numeral -/

namespace Json.Numeral

open Decimal (valueOf)

/-- The digits fit into sixty-four bits, and the exponent is not too great to be looked at. -/
structure Fits (n : Numeral) : Prop where
  digits : n.decimal.digits < wordLimit
  exponent : ∀ power ∈ n.exponent, valueOf power.2 ≤ exponentLimit

/-- There is nothing to round before the end: the number is zero, or its digits fit and there is no power
of ten, or the digits and the power are doubles. -/
inductive IsExact (n : Numeral) : Prop where
  | zero : n.decimal.digits = 0 → IsExact n
  | whole : n.Fits → n.decimal.exponent = 0 → IsExact n
  | scaled : n.Fits → Double.IsExact n.decimal.digits →
      Double.IsExact (10 ^ n.decimal.exponent.natAbs) → IsExact n

/-- Up to fifteen digits with an everyday power of ten are exact. -/
theorem isExact_of_short {n : Numeral} (hfits : n.Fits)
    (hdigits : n.decimal.digits ≤ 2 * Magnitude.binade) (hpower : n.decimal.exponent.natAbs ≤ 22) :
    n.IsExact :=
  .scaled hfits (Double.isExact_natCast hdigits) (Double.isExact_ten_pow hpower)

section Scale

variable {m : Magnitude} {exponent : ℤ}

theorem tenPower_eq (zeros : ℕ) : tenPower zeros = .ofRat false (10 ^ zeros) := by
  rw [tenPower, Decimal.toDouble_eq_ofRat, Decimal.toRat, Nat.cast_one, one_mul, zpow_natCast]

/-- A double is multiplied or divided by a power of ten with one rounding if the power is a double. -/
theorem scale_finite (hpower : Double.IsExact (10 ^ exponent.natAbs))
    (hfinite : (Double.ofRat false (m.toRat * 10 ^ exponent)).isFinite = true) :
    scale (.finite false m) exponent = some (.ofRat false (m.toRat * 10 ^ exponent)) := by
  have hsteps := hpower.le_of_ten_pow
  obtain ⟨p, hp⟩ := hpower
  have hten : tenPower exponent.natAbs = .finite false p := by
    rw [tenPower_eq, ← hp, Double.ofRat_toRat]
  rw [scale, if_pos hsteps, hten]
  rcases le_or_gt 0 exponent with hnonneg | hneg
  · have hvalue : (10 : ℚ) ^ exponent = p.toRat := by
      rw [hp, ← zpow_natCast, Int.natAbs_of_nonneg hnonneg]
    rw [hvalue] at hfinite ⊢
    rw [if_pos hnonneg, Double.mul_finite]
    exact if_pos hfinite
  · have hvalue : (10 : ℚ) ^ exponent = (p.toRat)⁻¹ := by
      rw [hp, ← zpow_natCast, ← zpow_neg, Int.ofNat_natAbs_of_nonpos hneg.le, neg_neg]
    have hpos : 0 < p.toRat := by
      rw [hp]
      positivity
    rw [if_neg (not_le.mpr hneg), Double.div_finite _ _ _ (Magnitude.toRat_pos_iff.mp hpos), hvalue,
      ← div_eq_mul_inv]
    rfl

/-- The steps in which a power is taken are doubles other than zero. -/
theorem exists_tenPower_eq {zeros : ℕ} (h : zeros ≤ 308) :
    ∃ p : Magnitude, tenPower zeros = .finite false p ∧ p.index ≠ 0 := by
  have hvalue : (Decimal.toRat ⟨1, zeros⟩ : ℚ) = 10 ^ zeros := by
    rw [Decimal.toRat, Nat.cast_one, one_mul, zpow_natCast]
  have hlong : 10 ^ 308 ≤ Magnitude.greatest := by decide +kernel
  have hgreatest : (10 : ℚ) ^ zeros ≤ Magnitude.greatest := by
    rw [← Nat.cast_ofNat, ← Nat.cast_pow, Nat.cast_le]
    have hless : 10 ^ zeros ≤ 10 ^ 308 := pow_le_pow_right₀ (by decide) h
    exact hless.trans hlong
  obtain ⟨p, hp, herror⟩ := Decimal.exists_round_of_le false (hvalue.le.trans hgreatest)
  refine ⟨p, by rw [tenPower, Decimal.toDouble_eq_round, hp], fun hzero => ?_⟩
  have hone : (1 : ℚ) ≤ 10 ^ zeros := one_le_pow₀ (by norm_num)
  have hhalf := Magnitude.half_unit_le
  rw [Magnitude.toRat_eq_zero hzero, hvalue, zero_sub, abs_neg, abs_of_nonneg (by positivity)] at herror
  linarith

/-- Zero remains zero. -/
theorem scale_zero (exponent : ℤ) : scale (.zero false) exponent = some (.zero false) := by
  have hzero : Double.zeroMagnitude.toRat = 0 := Magnitude.toRat_eq_zero rfl
  rw [scale]
  split
  · next hsteps =>
    obtain ⟨p, hp, hpos⟩ := exists_tenPower_eq hsteps
    rw [hp]
    split
    · rw [Double.zero, Double.mul_finite, hzero, zero_mul, Double.ofRat_zero]
      rfl
    · rw [Double.zero, Double.div_finite _ _ _ hpos, hzero, zero_div, Double.ofRat_zero]
      rfl
  · exact if_pos rfl

/-- Digits that fit are scaled to the nearest double if there is nothing else to round. -/
theorem scale_ofNat {digits : ℕ} (hdigits : digits < wordLimit)
    (hexact : exponent = 0 ∨ Double.IsExact digits ∧ Double.IsExact (10 ^ exponent.natAbs))
    (hfinite : (Double.ofRat false (digits * 10 ^ exponent)).isFinite = true) :
    scale (.ofNat digits) exponent = some (.ofRat false (digits * 10 ^ exponent)) := by
  rcases hexact with rfl | ⟨⟨m, hm⟩, hpower⟩
  · -- the digits may be rounded, but a product with one is not
    obtain ⟨m, hm, -⟩ := Double.round_eq_finite false Nat.one_pos
      (hdigits.le.trans (show wordLimit ≤ 10 ^ 30 by decide))
    have hone : Double.IsExact (10 ^ (0 : ℤ).natAbs) := Double.isExact_ten_pow (Nat.zero_le 22)
    have hself : Double.ofRat false (m.toRat * 10 ^ (0 : ℤ)) = .finite false m := by
      rw [zpow_zero, mul_one, Double.ofRat_toRat]
    rw [zpow_zero, mul_one, ← Double.ofNat_eq_ofRat, Double.ofNat, hm, scale_finite hone, hself]
    rw [hself]
    rfl
  · rw [← hm] at hfinite ⊢
    rw [Double.ofNat_eq_ofRat, ← hm, Double.ofRat_toRat, scale_finite hpower hfinite]

end Scale

variable {n : Numeral}

/-- All digits are taken over if they fit. -/
theorem accumulate_of_fits (h : n.decimal.digits < wordLimit) :
    accumulate 0 n.whole = (valueOf n.whole, 0) ∧
      accumulate (valueOf n.whole) (n.fraction.getD []) = (n.decimal.digits, 0) := by
  have happend : Nat.ofDigitChars 10 (n.fraction.getD []) (valueOf n.whole) = n.decimal.digits := by
    show _ = Nat.ofDigitChars 10 (n.whole ++ n.fraction.getD []) 0
    rw [Nat.ofDigitChars_append, valueOf]
  have hle : valueOf n.whole ≤ n.decimal.digits := happend ▸ Decimal.le_ofDigitChars _ _
  exact ⟨accumulate_eq (hle.trans_lt h), by rw [accumulate_eq (happend ▸ h), happend]⟩

/-- The digits are scaled by the power of ten if they fit. -/
theorem toDouble?_of_fits (h : n.Fits) (hsteps : n.decimal.exponent.natAbs ≤ 308) :
    n.toDouble? = (scale (.ofNat n.decimal.digits) n.decimal.exponent).map fun x =>
      if n.negative then -x else x := by
  obtain ⟨hwhole, hfraction⟩ := accumulate_of_fits h.digits
  have hexponent : n.decimal.exponent = powerOf n.exponent - (n.fraction.getD []).length := rfl
  rw [toDouble?, hwhole]
  dsimp only
  rw [hfraction]
  dsimp only
  cases hpower : n.exponent with
  | none =>
      rw [hpower, powerOf] at hexponent
      rw [hexponent]
      rfl
  | some power =>
      obtain ⟨below, digits⟩ := power
      have hlimit : exponentLimit = 0x7FFFFFFF := rfl
      -- so small an exponent is not cut
      have htotal : max (-(exponentLimit : ℤ) - 1) (min exponentLimit
          (if below then ((0 : ℕ) : ℤ) - ((n.fraction.getD []).length - 0 : ℕ) - valueOf digits
            else ((0 : ℕ) : ℤ) - ((n.fraction.getD []).length - 0 : ℕ) + valueOf digits)) =
          n.decimal.exponent := by
        rw [hpower, powerOf] at hexponent
        split at hexponent <;> split <;> first | omega | contradiction
      dsimp only
      rw [if_neg (not_lt.mpr (h.exponent _ hpower)), htotal]

/-- Zero is read as zero, whatever its exponent. -/
theorem toDouble?_of_zero (h : n.decimal.digits = 0) : n.toDouble? = some (.ofRat n.negative 0) := by
  obtain ⟨hwhole, hfraction⟩ := accumulate_of_fits (h.trans_lt (by decide))
  have hzero (exponent : ℤ) : scale (.ofNat 0) exponent = some (.zero false) := by
    rw [Double.ofNat_eq_ofRat, Nat.cast_zero, Double.ofRat_zero, scale_zero]
  rw [toDouble?, hwhole]
  dsimp only
  rw [hfraction, h]
  dsimp only
  have hsigned : (some (Double.zero false)).map (fun x => if n.negative then -x else x) =
      some (.ofRat n.negative 0) := by
    rw [Option.map_some, ← Double.ofRat_zero, Double.signed_ofRat]
  cases n.exponent with
  | none =>
      dsimp only
      rw [hzero]
      exact hsigned
  | some power =>
      dsimp only
      by_cases hlimit : exponentLimit < valueOf power.2
      · rw [if_pos hlimit, if_neg (by simp)]
        exact hsigned
      · rw [if_neg hlimit, hzero]
        exact hsigned

/-- A numeral of digits alone is read as an integer if it fits. -/
theorem toNumber?_of_whole (hfraction : n.fraction = none) (hexponent : n.exponent = none)
    (h : n.decimal.digits < wordLimit) :
    ∃ number, n.toNumber? = some number ∧ number.toDouble = .ofRat n.negative n.decimal.digits := by
  obtain ⟨hwhole, hvalue⟩ := accumulate_of_fits h
  rw [hfraction] at hvalue
  have hdigits : valueOf n.whole = n.decimal.digits := (Prod.mk.inj hvalue).1
  simp only [toNumber?, hfraction, hexponent, hwhole, hdigits]
  generalize n.decimal.digits = digits
  split
  · next hpositive =>
    refine ⟨_, rfl, ?_⟩
    rw [(Bool.not_eq_true' _).mp hpositive]
    exact Double.ofNat_eq_ofRat digits
  · next hnegative =>
    have hsign : n.negative = true := by simpa using hnegative
    rw [hsign]
    split
    · next hfits =>
      refine ⟨_, rfl, ?_⟩
      simp only [ne_eq, Bool.and_eq_true, decide_eq_true_eq] at hfits
      exact Double.ofInt_neg_eq_ofRat hfits.1
    · refine ⟨_, rfl, ?_⟩
      rw [Number.toDouble, Double.ofNat_eq_ofRat, Double.neg_ofRat]
      rfl

/-- Any other numeral is read as a double. -/
theorem toNumber?_of_not_whole (h : ¬ (n.fraction = none ∧ n.exponent = none)) :
    n.toNumber? = n.toDouble?.map .double := by
  rw [toNumber?]
  split
  · next hfraction hexponent _ => exact absurd ⟨hfraction, hexponent⟩ h
  · rfl

/-- Digits that fit become the nearest double if there is nothing else to round. -/
theorem toDouble?_of_scaled (hfits : n.Fits)
    (hexact : n.decimal.exponent = 0 ∨
      Double.IsExact n.decimal.digits ∧ Double.IsExact (10 ^ n.decimal.exponent.natAbs))
    (hfinite : (Double.ofRat n.negative n.decimal.toRat).isFinite = true) :
    n.toDouble? = some (.ofRat n.negative n.decimal.toRat) := by
  rw [Double.isFinite_ofRat] at hfinite
  have hsteps : n.decimal.exponent.natAbs ≤ 308 := by
    rcases hexact with hnone | ⟨-, hpower⟩
    · omega
    · exact hpower.le_of_ten_pow
  rw [toDouble?_of_fits hfits hsteps, scale_ofNat hfits.digits hexact hfinite, Option.map_some,
    Double.signed_ofRat, Decimal.toRat]

/-- A numeral with nothing to round before the end becomes the nearest double. -/
theorem toDouble?_of_isExact (h : n.IsExact)
    (hfinite : (Double.ofRat n.negative n.decimal.toRat).isFinite = true) :
    n.toDouble? = some (.ofRat n.negative n.decimal.toRat) := by
  cases h with
  | zero hzero => rw [toDouble?_of_zero hzero, Decimal.toRat, hzero, Nat.cast_zero, zero_mul]
  | whole hfits hnone => exact toDouble?_of_scaled hfits (Or.inl hnone) hfinite
  | scaled hfits hdigits hpower =>
      exact toDouble?_of_scaled hfits (Or.inr ⟨hdigits, hpower⟩) hfinite

/-- **A numeral is read as the double nearest to its number** if there is nothing to round before. -/
theorem toNumber?_of_isExact (h : n.IsExact)
    (hfinite : (Double.ofRat n.negative n.decimal.toRat).isFinite = true) :
    ∃ number, n.toNumber? = some number ∧
      number.toDouble = .ofRat n.negative n.decimal.toRat := by
  by_cases hwhole : n.fraction = none ∧ n.exponent = none
  · obtain ⟨hfraction, hexponent⟩ := hwhole
    have hnone : n.decimal.exponent = 0 := by
      rw [decimal, hfraction, hexponent]
      rfl
    have hfits : n.decimal.digits < wordLimit := by
      cases h with
      | zero hzero => exact hzero.trans_lt (by decide)
      | whole hfits _ => exact hfits.digits
      | scaled hfits _ _ => exact hfits.digits
    rw [Decimal.toRat, hnone, zpow_zero, mul_one]
    exact toNumber?_of_whole hfraction hexponent hfits
  · rw [toNumber?_of_not_whole hwhole, toDouble?_of_isExact h hfinite]
    exact ⟨_, rfl, rfl⟩

end Json.Numeral

/-! ## Sent as a number and as a text -/

namespace NumberInput

open Json (IsNumeral IsQuoted IsText decodeText)

variable {literal quoted : String} {n : Json.Numeral}

/-- A numeral in quotes is read as the nearest double. -/
theorem toDouble_decode_quoted (hliteral : IsNumeral literal.toList n)
    (hquoted : IsQuoted quoted.toList literal) :
    (decodeText decoder quoted).map toDouble = .ok (.ofRat n.negative n.decimal.toRat) := by
  have htext : IsText quoted (.text literal) :=
    ⟨[], _, [], Json.areSpaces_nil, .text hquoted, Json.areSpaces_nil, (List.append_nil _).symm⟩
  obtain ⟨w, -, hparse, hvalue⟩ := Number.parse_of_isNumeral hliteral
  have hmeant : (NumberInput.text literal).toDouble = .ofRat n.negative n.decimal.toRat := by
    rw [toDouble, hparse, Option.getD_some, hvalue, Decimal.toDouble_eq_ofRat]
  rw [htext.decodeText, ← hmeant]
  rfl

/-- A numeral without quotes is read as its number in JSON. -/
theorem toDouble_decode_number {number : Json.Number} (hliteral : IsNumeral literal.toList n)
    (hnumber : n.toNumber? = some number) :
    (decodeText decoder literal).map toDouble = .ok number.toDouble := by
  have htext : IsText literal (.number number) :=
    ⟨[], _, [], Json.areSpaces_nil, .number hliteral hnumber, Json.areSpaces_nil,
      (List.append_nil _).symm⟩
  rw [htext.decodeText]
  rfl

/-- **A number is read alike** as it is and in quotes, as the double nearest to it, if it is not past the
finite doubles and there is nothing to round before. -/
theorem toDouble_decode_eq (hliteral : IsNumeral literal.toList n)
    (hquoted : IsQuoted quoted.toList literal)
    (hfinite : (Double.ofRat n.negative n.decimal.toRat).isFinite = true) (hexact : n.IsExact) :
    (decodeText decoder literal).map toDouble = (decodeText decoder quoted).map toDouble ∧
      (decodeText decoder quoted).map toDouble = .ok (.ofRat n.negative n.decimal.toRat) := by
  obtain ⟨number, hnumber, hvalue⟩ := Json.Numeral.toNumber?_of_isExact hexact hfinite
  have htext := toDouble_decode_quoted hliteral hquoted
  rw [htext, toDouble_decode_number hliteral hnumber, hvalue]
  exact ⟨rfl, rfl⟩

/-- A number with a fraction and an exponent. -/
theorem toDouble_decode_eq_short :
    ∃ n, IsNumeral "-12.5e-3".toList n ∧ IsQuoted "\"-12.5e-3\"".toList "-12.5e-3" ∧
      (Double.ofRat n.negative n.decimal.toRat).isFinite = true ∧ n.IsExact ∧
        (decodeText decoder "-12.5e-3").map toDouble =
          (decodeText decoder "\"-12.5e-3\"").map toDouble := by
  have hwhole : Json.AreWhole ['1', '2'] :=
    ⟨⟨List.cons_ne_nil _ _, List.all_eq_true.mp rfl⟩, by decide⟩
  have hfraction : Json.AreDigits ['5'] := ⟨List.cons_ne_nil _ _, List.all_eq_true.mp rfl⟩
  have hpower : Json.AreDigits ['3'] := ⟨List.cons_ne_nil _ _, List.all_eq_true.mp rfl⟩
  have hliteral : IsNumeral "-12.5e-3".toList _ :=
    .mk .present hwhole (.digits hfraction) (.digits (Or.inl rfl) .minus hpower)
  have hquoted : IsQuoted "\"-12.5e-3\"".toList "-12.5e-3" := Json.Quoted.isQuoted_write "-12.5e-3"
  have hfits : Json.Numeral.Fits ⟨true, ['1', '2'], some ['5'], some (true, ['3'])⟩ := by
    refine ⟨by decide, fun power hpower => ?_⟩
    obtain rfl := Option.some.inj hpower
    decide
  have hexact := Json.Numeral.isExact_of_short hfits (by decide) (by decide)
  refine ⟨_, hliteral, hquoted, ?_, hexact, (toDouble_decode_eq hliteral hquoted ?_ hexact).1⟩
  all_goals
    rw [← Decimal.toDouble_eq_ofRat]
    decide +kernel

/-- A power of ten that is no double is rounded before the digits are divided by it. -/
theorem not_toDouble_decode_eq :
    ¬ ∀ (literal quoted : String) (n : Json.Numeral), IsNumeral literal.toList n →
      IsQuoted quoted.toList literal → (Double.ofRat n.negative n.decimal.toRat).isFinite = true →
        (decodeText decoder literal).map toDouble = (decodeText decoder quoted).map toDouble := by
  intro h
  have hwhole : Json.AreWhole ['1'] :=
    ⟨⟨List.cons_ne_nil _ _, List.all_eq_true.mp rfl⟩, by decide⟩
  have hpower : Json.AreDigits ['2', '3'] := ⟨List.cons_ne_nil _ _, List.all_eq_true.mp rfl⟩
  have hliteral : IsNumeral "1e-23".toList ⟨false, ['1'], none, some (true, ['2', '3'])⟩ :=
    .mk .absent hwhole .absent (.digits (Or.inl rfl) .minus hpower)
  have hquoted : IsQuoted "\"1e-23\"".toList "1e-23" := Json.Quoted.isQuoted_write "1e-23"
  obtain ⟨number, hnumber⟩ := Option.isSome_iff_exists.mp (show (Json.Numeral.toNumber?
    ⟨false, ['1'], none, some (true, ['2', '3'])⟩).isSome = true by decide +kernel)
  have hsame := h _ _ _ hliteral hquoted (by rw [← Decimal.toDouble_eq_ofRat]; decide +kernel)
  rw [toDouble_decode_number hliteral hnumber, toDouble_decode_quoted hliteral hquoted,
    ← Decimal.toDouble_eq_ofRat] at hsame
  have hread := congrArg (Option.map Json.Number.toDouble) hnumber
  rw [Option.map_some, Except.ok.inj hsame] at hread
  exact absurd hread (by decide +kernel)

end NumberInput

end Abacus
