import Abacus.Proofs.Display

/-!
# Shape — what the texts of results look like

A finite result is a zero, or it has the exponential form or the positional one, and its number alone
says which (`isExtreme_iff_isBeyond`).  The first digit of an exponential text is not zero, as a rounded
magnitude has one digit more than places; the last place of a positional text is not zero, as the
shortest decimal of a double is stripped of the zeros at its end.  The headline `shape_result` says of
every double what its text looks like.
-/

namespace Abacus.Display

open Decimal (numeral signedNumeral valueOf)
open Json (AreWhole IsFraction)

/-! ## The forms -/

/-- One digit other than zero, so many more after a point, and the power of ten with its sign.  If no
digits are after the point, there is none. -/
inductive IsExponential (places : ℕ) : List Char → Prop where
  | mk {first sign : Char} {point power : List Char} {fraction : Option (List Char)} :
      first.isDigit = true → first ≠ '0' → IsFraction point fraction →
        (fraction.getD []).length = places → sign = '+' ∨ sign = '-' → AreWhole power →
          IsExponential places (first :: (point ++ 'e' :: sign :: power))

/-- Digits, and not more than so many after a point, the last of which is not zero. -/
inductive IsPositional (most : ℕ) : List Char → Prop where
  | mk {whole point : List Char} {fraction : Option (List Char)} :
      AreWhole whole → IsFraction point fraction → (fraction.getD []).length ≤ most →
        (fraction.getD []).getLast? ≠ some '0' → IsPositional most (whole ++ point)

/-- The text has the given form, with a minus in front of it just if the number is below zero. -/
def IsSigned (v : ℚ) (form : List Char → Prop) (text : String) : Prop :=
  ∃ digits, form digits ∧ text.toList = Double.withSign (decide (v < 0)) digits

/-- More than ten to the tenth, or less than ten to the minus tenth and not zero. -/
def IsBeyond (v : ℚ) : Prop :=
  10 ^ 10 < |v| ∨ 0 < |v| ∧ |v| < 1 / 10 ^ 10

/-- **The number** of a double says whether it is extreme. -/
theorem isExtreme_iff_isBeyond {value : Double} {v : ℚ} (h : value.toRat? = some v) :
    isExtreme value = true ↔ IsBeyond v := by
  obtain ⟨negative, m, rfl, habs, -⟩ := Double.exists_of_toRat? h
  rw [isExtreme_iff, IsBeyond, habs]

/-! ## Exponential texts -/

/-- A power of ten with its sign. -/
theorem exists_power_eq (power : ℤ) :
    ∃ sign, (sign = '+' ∨ sign = '-') ∧
      (if true && decide (0 ≤ power) then ['+'] else []) ++ signedNumeral power =
        sign :: numeral power.natAbs := by
  rw [signedNumeral]
  rcases lt_or_ge power 0 with hneg | hnonneg
  · exact ⟨'-', Or.inr rfl, by simp [hneg]⟩
  · exact ⟨'+', Or.inl rfl, by simp [hnonneg]⟩

/-- A decimal of one digit more than places is set out with so many places. -/
theorem isExponential_exponential {d : Decimal} {places : ℕ} (hlow : 10 ^ places ≤ d.digits)
    (hhigh : d.digits < 10 ^ (places + 1)) : IsExponential places (d.exponential true) := by
  obtain ⟨first, point, fraction, heq, hfraction, htext⟩ := Decimal.exists_exponential_eq true d
  obtain ⟨sign, hsign, hpower⟩ := exists_power_eq d.leading
  have hlength := Decimal.length_numeral hlow hhigh
  have hdigits : d.digits ≠ 0 := (Nat.lt_of_lt_of_le (Nat.pow_pos (by decide)) hlow).ne'
  have hhead := Decimal.head_numeral hdigits
  have hdigit : first.isDigit = true := Decimal.isDigit_of_mem_numeral (heq ▸ List.mem_cons_self)
  rw [heq] at hlength hhead
  rw [htext, hpower]
  exact .mk hdigit (fun hzero => hhead (congrArg some hzero)) hfraction (Nat.succ.inj hlength) hsign
    (Decimal.areWhole_numeral _)

/-- An exponential text does not begin with a zero. -/
theorem IsSigned.ne_zero {v : ℚ} {places : ℕ} {text : String} (h : IsSigned v (IsExponential places) text) :
    text ≠ "0" := by
  rintro rfl
  obtain ⟨digits, hform, hsigned⟩ := h
  cases hform with
  | mk _ hfirst =>
    rw [Double.withSign] at hsigned
    split at hsigned
    · exact absurd (List.cons.inj hsigned).1 (by decide)
    · exact hfirst (List.cons.inj hsigned).1.symm

/-! ## Positional texts -/

/-- A zero at the end of digits is one at the end of their number. -/
theorem valueOf_append_zero (digits : List Char) : valueOf (digits ++ ['0']) = 10 * valueOf digits := by
  rw [valueOf, Nat.ofDigitChars_append]
  rfl

/-- A decimal that does not end in a zero is set out without zeros at the end of its places. -/
theorem isPositional_positional {d : Decimal} {most : ℕ} (hdigits : d.digits % 10 ≠ 0)
    (hmost : -most ≤ d.exponent) : IsPositional most d.positional := by
  rcases le_or_gt 0 d.exponent with hnonneg | hneg
  · obtain ⟨digits, exponent⟩ := d
    obtain ⟨places, rfl⟩ := Int.eq_ofNat_of_zero_le hnonneg
    have hwhole : AreWhole (numeral digits ++ Decimal.zeros places) :=
      Decimal.areWhole_append_zeros (Or.inl fun hzero => by
        dsimp only at hdigits
        omega)
    rw [Decimal.positional_natCast, ← List.append_nil (_ ++ _)]
    exact .mk hwhole .absent (Nat.zero_le most) nofun
  · obtain ⟨whole, fraction, htext, hwhole, hfraction, hlength, hvalue⟩ :=
      Decimal.exists_positional_eq hneg
    rw [htext]
    refine .mk hwhole (.digits hfraction) (by rw [Option.getD_some]; omega) fun hlast => ?_
    obtain ⟨before, hbefore⟩ := List.getLast?_eq_some_iff.mp hlast
    rw [Option.getD_some] at hbefore
    rw [hbefore, ← List.append_assoc, valueOf_append_zero] at hvalue
    omega

/-! ## The headline -/

section Results

variable {value : Double} {v : ℚ}

/-- An extreme result has the exponential form. -/
theorem isExponential_withPlaces (h : value.toRat? = some v) (hbeyond : IsBeyond v) (places : ℕ) :
    IsSigned v (IsExponential (min places maxPlaces)) (withPlaces places value) := by
  have hextreme := (isExtreme_iff_isBeyond h).mpr hbeyond
  obtain ⟨negative, m, rfl, habs, hsign⟩ := Double.exists_of_toRat? h
  have hpos : m.index ≠ 0 := by
    rw [← Magnitude.toRat_pos_iff, ← habs]
    exact hbeyond.elim (fun hlarge => (by norm_num : (0 : ℚ) < 10 ^ 10).trans hlarge) And.left
  obtain ⟨hlow, hhigh⟩ := Decimal.digits_rounded hpos (min places maxPlaces)
  refine ⟨_, isExponential_exponential hlow hhigh, ?_⟩
  rw [withPlaces_of_isExtreme hextreme, Double.exponential, String.toList_ofList, if_neg hpos, hsign hpos]

/-- Another one has the positional form. -/
theorem isPositional_result (h : value.toRat? = some v) (hbeyond : ¬ IsBeyond v) :
    IsSigned v (IsPositional defaultPlaces) (result value) := by
  rw [← isExtreme_iff_isBeyond h] at hbeyond
  obtain ⟨negative, m, rfl, habs, hsign⟩ := Double.exists_of_toRat? h
  by_cases hpos : m.index = 0
  · have hzero : v = 0 := abs_eq_zero.mp (habs.trans (Magnitude.toRat_eq_zero hpos))
    rw [result_of_index_eq_zero negative hpos, hzero]
    exact ⟨_, .mk (Decimal.areWhole_numeral 0) .absent (Nat.zero_le _) nofun, rfl⟩
  · obtain ⟨m', hplain, hpos', hexponent, -⟩ := exists_result_eq_plain hbeyond hpos
    refine ⟨_, isPositional_positional (Decimal.digits_shortest_mod .up hpos') (hexponent .up), ?_⟩
    rw [hplain, Double.plain, String.toList_ofList, hsign hpos]

/-- Only the zeros are shown as a zero. -/
theorem result_eq_zero_iff : result value = "0" ↔ value.isZero = true := by
  cases value with
  | nan => exact iff_of_false (by decide) Bool.false_ne_true
  | infinite negative =>
      rw [result_eq_error_iff.mpr rfl]
      exact iff_of_false (by decide) Bool.false_ne_true
  | finite negative m =>
      rw [Double.isZero, beq_iff_eq]
      refine ⟨fun htext => ?_, result_of_index_eq_zero negative⟩
      by_contra hpos
      by_cases hextreme : isExtreme (.finite negative m) = true
      · have hvalue : (Double.finite negative m).toRat? = some _ := rfl
        exact (isExponential_withPlaces hvalue ((isExtreme_iff_isBeyond hvalue).mp hextreme)
          defaultPlaces).ne_zero htext
      · -- a positional text is a numeral of a double that is not zero
        obtain ⟨m', hplain, hpos', -⟩ := exists_result_eq_plain hextreme hpos
        rw [hplain, Double.plain, show "0" = String.ofList (numeral 0) from rfl, String.ofList_inj,
          Double.withSign] at htext
        split at htext
        · exact absurd (List.cons.inj htext).1 (by decide)
        · rw [Decimal.positional_shortest_eq_iff .up (by decide), Nat.zero_mul] at htext
          exact hpos' (htext.trans (Magnitude.nearest_one_of_lt (by decide)))

/-- **The text of a double**: an error just if the double is not finite, a zero just for the two zeros,
and otherwise it has one of the two forms, by the number alone. -/
theorem shape_result (value : Double) :
    (result value = "Error" ↔ value.isFinite = false) ∧
      (result value = "0" ↔ value.isZero = true) ∧
      ∀ v, value.toRat? = some v →
        (IsBeyond v → IsSigned v (IsExponential 10) (result value) ∧
          ∀ places, IsSigned v (IsExponential (min places 100)) (withPlaces places value)) ∧
        (¬ IsBeyond v → IsSigned v (IsPositional 10) (result value)) :=
  ⟨result_eq_error_iff, result_eq_zero_iff, fun _ hv =>
    ⟨fun hbeyond => ⟨isExponential_withPlaces hv hbeyond defaultPlaces,
      isExponential_withPlaces hv hbeyond⟩, isPositional_result hv⟩⟩

example : result (Double.ofInt (-12345678901)) = "-1.2345678901e+10" := by decide +kernel

end Results

end Abacus.Display
