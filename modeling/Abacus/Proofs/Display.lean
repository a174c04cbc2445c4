import Abacus.Proofs.Decimal.Numeral
import Abacus.Proofs.Display.Places

/-!
# Display — the texts of results

Every finite result is shown by a numeral (`exists_isNumeral_result`).

A result is scaled up by ten to the tenth, rounded to a whole number and scaled down again.  For a
whole result the scaled number is whole as well, but it may have more than fifty-three bits: then it
is moved to a double nearby (`toPlaces_whole`), and scaling down does not give the result back if it
was moved too far.  The headline `result_ofInt_eq_iff` says exactly which integers are shown by their
numerals; all up to `922337203` are (`result_ofInt_of_le`), and `922337205` is the first that is not.
-/

namespace Abacus.Display

open Decimal (numeral signedNumeral)
open Double (round_eq_finite)
open Magnitude (units one nearest stray wholeGap)

/-! ## Finite results -/

/-- **The text of a finite result** is a numeral. -/
theorem exists_isNumeral_result {value : Double} (h : value.isFinite = true) :
    ∃ n, Json.IsNumeral (result value).toList n := by
  cases value with
  | nan => exact absurd h Bool.false_ne_true
  | infinite negative => exact absurd h Bool.false_ne_true
  | finite negative m =>
      by_cases hzero : m.index = 0
      · obtain ⟨n, hn, -⟩ := Decimal.denotes_positional (d := ⟨0, 0⟩) (Or.inr (le_refl 0))
        rw [result_of_index_eq_zero negative hzero]
        exact ⟨n, hn⟩
      · by_cases hextreme : isExtreme (.finite negative m) = true
        · obtain ⟨n, hn, -⟩ := Double.denotes_rounded true defaultPlaces negative hzero
          rw [result, withPlaces_of_isExtreme hextreme]
          exact ⟨n, hn⟩
        · obtain ⟨m', hplain, -⟩ := exists_result_eq_plain hextreme hzero
          obtain ⟨n, hn, -⟩ := Double.denotes_plain negative m'
          rw [hplain]
          exact ⟨n, hn⟩

/-- Only what is not finite is shown as an error. -/
theorem result_eq_error_iff {value : Double} : result value = "Error" ↔ value.isFinite = false := by
  constructor
  · intro herror
    refine Bool.eq_false_iff.mpr fun hfinite => ?_
    obtain ⟨n, hn⟩ := exists_isNumeral_result hfinite
    rw [herror] at hn
    rcases Number.mem_of_isNumeral hn (c := 'r') (by decide) with hdigit | hother
    · exact absurd hdigit (by decide)
    · exact absurd hother (by decide)
  · intro hfinite
    rw [result, withPlaces, hfinite]
    rfl

/-! ## Whole results -/

variable {negative : Bool} {m : Magnitude} {k : ℕ}

/-- No whole number up to ten to the tenth is shown in exponential form. -/
theorem isExtreme_whole (h : units m.index = k * one) (hk : k ≤ 10 ^ 10) :
    isExtreme (.finite negative m) = false := by
  rw [Bool.eq_false_iff, Ne, isExtreme_iff]
  rintro (hlarge | ⟨hpos, hsmall⟩)
  · rw [Magnitude.toRat_whole h] at hlarge
    exact absurd hk (Nat.not_le.mpr (by exact_mod_cast hlarge))
  · rw [Magnitude.toRat_whole h] at hpos hsmall
    have hone : (1 : ℚ) ≤ k := by exact_mod_cast hpos
    exact absurd (hone.trans_lt hsmall) (by norm_num)

/-- Scaling a whole number down again divides what scaling up has made of it. -/
theorem toPlaces_whole (h : units m.index = k * one) (hk : k ≤ 10 ^ 10) :
    ∃ whole, (whole + stray (10 ^ 10 * k) = 10 ^ 10 * k ∨ whole = 10 ^ 10 * k + stray (10 ^ 10 * k)) ∧
      whole ≤ 10 ^ 30 ∧
      toPlaces defaultPlaces (.finite negative m) = Double.round negative (whole * one) (10 ^ 10) := by
  obtain ⟨whole, hwhole, hmoved⟩ := Magnitude.exists_nearest_whole (10 ^ 10 * k)
  refine ⟨whole, hmoved, ?_, ?_⟩
  · have hstray : stray (10 ^ 10 * k) ≤ 10 ^ 10 * k := by
      rw [stray]
      exact Nat.le_trans (Nat.min_le_left ..) (Nat.mod_le ..)
    omega
  · have hlast : lastPlaces m = whole := by
      rw [lastPlaces, h, Nat.mul_right_comm, Nat.mul_comm k, hwhole, Magnitude.wholeNear_whole]
    rw [toPlaces_eq negative (by rw [Magnitude.toRat_whole h]; exact_mod_cast hk), hlast]

/-! ## The text -/

/-- The numeral of an integer with its sign. -/
theorem signedNumeral_eq (n : ℤ) :
    signedNumeral n = Double.withSign (decide (n < 0)) (numeral n.natAbs) := by
  by_cases h : n < 0 <;> simp [signedNumeral, Double.withSign, h]

theorem withSign_inj {negative : Bool} {digits digits' : List Char} :
    Double.withSign negative digits = Double.withSign negative digits' ↔ digits = digits' := by
  cases negative <;> simp [Double.withSign]

/-- Only the numeral of zero is a zero. -/
theorem signedNumeral_eq_zero_iff {n : ℤ} : signedNumeral n = ['0'] ↔ n = 0 := by
  constructor
  · intro h
    rw [signedNumeral] at h
    split at h
    · simp at h
    · have hvalue := congrArg Decimal.valueOf h
      rw [Decimal.valueOf_numeral] at hvalue
      exact Int.natAbs_eq_zero.mp hvalue
  · rintro rfl
    rfl

/-- A double is shown as an integer just if it is the double nearest to the integer. -/
theorem shown_eq_signedNumeral_iff {n : ℤ} (h : n.natAbs < 2 * Magnitude.binade) (m : Magnitude) :
    (if (Double.finite (decide (n < 0)) m).isZero then "0" else (Double.finite (decide (n < 0)) m).plain) =
        String.ofList (signedNumeral n) ↔ m.index = nearest (n.natAbs * one) 1 := by
  have hzero : nearest (0 * one) 1 = 0 := by
    rw [Nat.zero_mul]
    exact Magnitude.nearest_one_of_lt (by decide)
  by_cases hm : m.index = 0
  · rw [Double.isZero, if_pos (beq_iff_eq.mpr hm), show "0" = String.ofList ['0'] from rfl,
      String.ofList_inj, eq_comm, signedNumeral_eq_zero_iff, hm]
    constructor
    · rintro rfl
      exact hzero.symm
    · intro hnearest
      have := Magnitude.nearest_whole_inj h (hzero.trans hnearest)
      omega
  · rw [Double.isZero, if_neg (by simpa using hm), Double.plain, String.ofList_inj, signedNumeral_eq,
      withSign_inj]
    exact Decimal.positional_shortest_eq_iff .up h

/-- A power of two, scaled up, does not stray. -/
theorem stray_scaled_pow (e : ℕ) : stray (10 ^ 10 * 2 ^ e) = 0 := by
  refine Magnitude.stray_eq_zero_of_dvd ?_
  have hlog : (10 ^ 10 * 2 ^ e).log2 = e + 33 := by
    rw [Nat.log2_eq_iff (Nat.mul_pos (by decide) (Nat.two_pow_pos e)).ne', Nat.pow_add,
      show e + 33 + 1 = e + 34 by omega, Nat.pow_add, Nat.mul_comm (10 ^ 10)]
    exact ⟨Nat.mul_le_mul_left _ (by decide), Nat.mul_lt_mul_of_pos_left (by decide) (Nat.two_pow_pos e)⟩
  rw [wholeGap, hlog]
  exact Nat.dvd_mul_left_of_dvd (Nat.pow_dvd_pow 2 (by omega)) _

/-- An integer is shown by its numeral just if scaling down gives it back. -/
theorem result_ofInt_eq_iff_nearest {n : ℤ} (h : n.natAbs ≤ 10 ^ 10) :
    ∃ whole, (whole + stray (10 ^ 10 * n.natAbs) = 10 ^ 10 * n.natAbs ∨
        whole = 10 ^ 10 * n.natAbs + stray (10 ^ 10 * n.natAbs)) ∧
      (result (Double.ofInt n) = String.ofList (signedNumeral n) ↔
        nearest (whole * one) (10 ^ 10) = nearest (n.natAbs * one) 1) := by
  have hshort : n.natAbs < 2 * Magnitude.binade := by
    rw [show Magnitude.binade = 4503599627370496 from rfl]
    omega
  obtain ⟨m, hround, hindex⟩ := round_eq_finite (decide (n < 0)) (n := n.natAbs) Nat.one_pos (by omega)
  have hunits : units m.index = n.natAbs * one := by
    rw [hindex, Magnitude.units_nearest_whole hshort.le]
  obtain ⟨whole, hmoved, hbound, hplaces⟩ := @toPlaces_whole (decide (n < 0)) m _ hunits h
  obtain ⟨shown, hshown, hshownIndex⟩ := round_eq_finite (decide (n < 0))
    (show 0 < 10 ^ 10 by decide) hbound
  refine ⟨whole, hmoved, ?_⟩
  rw [← hshownIndex, ← shown_eq_signedNumeral_iff hshort, result, withPlaces,
    show Double.ofInt n = .finite (decide (n < 0)) m from hround]
  show (if (!true) = true then _ else _) = _ ↔ _
  rw [if_neg (by decide), isExtreme_whole hunits h, if_neg (by decide),
    show min defaultPlaces maxPlaces = defaultPlaces from rfl, hplaces, hshown]

/-- **Whole results**: an integer is shown by its numeral just if, scaled up, it does not stray so far
that scaling down misses it. -/
theorem result_ofInt_eq_iff {n : ℤ} (h : n.natAbs ≤ 10 ^ 10) :
    result (Double.ofInt n) = String.ofList (signedNumeral n) ↔
      stray (10 ^ 10 * n.natAbs) * 2 ^ 53 < 10 ^ 10 * 2 ^ n.natAbs.log2 := by
  obtain ⟨whole, hmoved, hiff⟩ := result_ofInt_eq_iff_nearest h
  rw [hiff]
  rcases Nat.eq_zero_or_pos n.natAbs with hzero | hpos
  · -- nothing strays from zero
    rw [hzero] at hmoved ⊢
    have hstray : stray (10 ^ 10 * 0) = 0 := rfl
    rw [hstray] at hmoved ⊢
    obtain rfl : whole = 0 := by omega
    refine iff_of_true (Magnitude.nearest_congr (by decide) Nat.one_pos ?_) (by decide)
    rw [Nat.zero_mul, Nat.zero_mul, Nat.zero_mul]
  · have hlog : n.natAbs.log2 < 34 := (Nat.log2_lt hpos.ne').mpr (by omega)
    refine Magnitude.nearest_quotient_eq_iff hpos ?_ (by decide) ?_ hmoved ?_
    · rw [show Magnitude.binade = 4503599627370496 from rfl]
      omega
    · intro hdvd
      have htwenty : 2 ^ 19 ∣ 10 ^ 10 := Nat.dvd_trans (Nat.pow_dvd_pow 2 (by omega)) hdvd
      revert htwenty
      decide
    · intro hpower
      rw [hpower]
      exact stray_scaled_pow _

/-- Ten to the tenth is shown by its numeral, without an exponent. -/
theorem result_ten_pow_ten :
    (10 ^ 10 : ℤ).natAbs ≤ 10 ^ 10 ∧
      result (Double.ofInt (10 ^ 10)) = String.ofList (signedNumeral (10 ^ 10)) :=
  ⟨by decide, (result_ofInt_eq_iff (by decide)).mpr (by decide)⟩

/-- The first integer that is not shown by its numeral. -/
theorem result_first_astray :
    ¬ ∀ n : ℤ, n.natAbs ≤ 10 ^ 10 → result (Double.ofInt n) = String.ofList (signedNumeral n) := by
  intro h
  obtain ⟨whole, hmoved, hiff⟩ := result_ofInt_eq_iff_nearest (n := 922337205) (by decide)
  have hback := hiff.mp (h 922337205 (by decide))
  have hstray := (Magnitude.nearest_quotient_eq_iff (by decide) (by decide) (by decide) (by decide)
    hmoved (fun hpower => absurd hpower (by decide))).mp hback
  revert hstray
  decide

/-- A whole result that still fits sixty-three bits when scaled up is shown by its numeral. -/
theorem result_ofInt_of_le {n : ℤ} (h : n.natAbs ≤ 922337203) :
    result (Double.ofInt n) = String.ofList (signedNumeral n) := by
  obtain ⟨whole, hmoved, hiff⟩ := result_ofInt_eq_iff_nearest (n := n) (by omega)
  have hlog : (10 ^ 10 * n.natAbs).log2 < 63 := by
    by_cases hzero : 10 ^ 10 * n.natAbs = 0
    · rw [hzero]
      decide
    · exact (Nat.log2_lt hzero).mpr (by omega)
  have hgap : wholeGap (10 ^ 10 * n.natAbs) ∣ 10 ^ 10 * n.natAbs := by
    rw [wholeGap]
    refine Nat.dvd_mul_right_of_dvd (Nat.dvd_trans (Nat.pow_dvd_pow 2 (n := 10) (by omega)) ?_) _
    decide
  rw [Magnitude.stray_eq_zero_of_dvd hgap] at hmoved
  obtain rfl : whole = 10 ^ 10 * n.natAbs := by omega
  exact hiff.mpr (Magnitude.nearest_congr (by decide) Nat.one_pos (by ring))

end Abacus.Display
