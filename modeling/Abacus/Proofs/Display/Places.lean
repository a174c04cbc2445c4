import Abacus.Display
import Abacus.Proofs.Decimal.Rounded
import Abacus.Proofs.Decimal.Shortest

/-!
# Places — which results are extreme, and how the others are rounded

The double nearest to `10 ^ -10` is a little more than the power, so that a double is extreme just if its
number is beyond the powers themselves (`isExtreme_iff`).  A number that is not extreme is scaled up,
rounded to a whole number of tenth places and scaled down.  All three steps round, and still not to zero
and not to more than ten places (`exists_toPlaces`).  So a finite result is shown in one of three forms:
as a zero, in exponential form, or with all the places of a double close by (`exists_result_eq_plain`).
-/

namespace Abacus.Display

open Decimal (RoundsTo shortest)
open Double (round_eq_finite)
open Magnitude (nearest one units units_strictMono wholeNear)

/-! ## The bounds -/

/-- The double nearest to ten to the minus tenth is not less. -/
theorem one_le_units_smallest : one ≤ units (nearest one (10 ^ 10)) * 10 ^ 10 := by
  decide +kernel

/-- Only what is less than ten to the minus tenth is below the double nearest to that power. -/
theorem lt_smallest_iff {i : ℕ} : i < nearest one (10 ^ 10) ↔ units i * 10 ^ 10 < one := by
  rw [← Nat.not_le, ← Nat.not_le, not_iff_not]
  constructor
  · intro hle
    exact one_le_units_smallest.trans (Nat.mul_le_mul_right _ (units_strictMono.monotone hle))
  · intro hle
    have hten : 0 < 10 ^ 10 := by decide
    have hmono := Magnitude.nearest_mono hten hten (Nat.mul_le_mul_right _ hle)
    rwa [Magnitude.nearest_units i (by decide)] at hmono

/-- Only what is more than ten to the tenth is above the double nearest to that power. -/
theorem largest_lt_iff {i : ℕ} : nearest (10 ^ 10 * one) 1 < i ↔ 10 ^ 10 * one < units i := by
  rw [← units_strictMono.lt_iff_lt, Magnitude.units_nearest_whole (by decide)]

/-- **A double is extreme** just if its number is more than ten to the tenth, or less than ten to the
minus tenth and not zero. -/
theorem isExtreme_iff {negative : Bool} {m : Magnitude} :
    isExtreme (.finite negative m) = true ↔
      10 ^ 10 < m.toRat ∨ 0 < m.toRat ∧ m.toRat < 1 / 10 ^ 10 := by
  obtain ⟨large, hlarge, hlargeIndex⟩ := round_eq_finite false (n := 10 ^ 10) Nat.one_pos (by decide)
  obtain ⟨small, hsmall, hsmallIndex⟩ := round_eq_finite false (n := 1)
    (show 0 < 10 ^ 10 by decide) (by decide)
  have hlargest : largest = .finite false large := by
    rw [largest, Decimal.toDouble, if_neg (by decide), if_neg (by decide),
      show Decimal.quotient ⟨1, 10⟩ = (10 ^ 10, 1) from rfl]
    exact hlarge
  have hsmallest : smallest = .finite false small := by
    rw [smallest, Decimal.toDouble, if_neg (by decide), if_neg (by decide),
      show Decimal.quotient ⟨1, -10⟩ = (1, 10 ^ 10) from rfl]
    exact hsmall
  have hpos := Magnitude.one_pos_rat
  have habove : large.index < m.index ↔ 10 ^ 10 < m.toRat := by
    rw [hlargeIndex, largest_lt_iff, Magnitude.toRat, lt_div_iff₀ hpos, ← @Nat.cast_lt ℚ]
    push_cast
    rfl
  have hbelow : m.index < small.index ↔ m.toRat < 1 / 10 ^ 10 := by
    rw [hsmallIndex, Nat.one_mul, lt_smallest_iff, Magnitude.toRat, div_lt_div_iff₀ hpos (by norm_num),
      one_mul, ← @Nat.cast_lt ℚ]
    push_cast
    rfl
  rw [isExtreme, hlargest, hsmallest]
  simp only [Double.magnitudeLt, Double.isZero, Bool.or_eq_true, decide_eq_true_eq, Bool.and_eq_true,
    Bool.not_eq_true', beq_eq_false_iff_ne, habove, hbelow, Magnitude.toRat_pos_iff, ne_eq]

/-! ## Scaling up and down -/

/-- The factor of the default places is a double. -/
theorem exists_factor :
    ∃ m : Magnitude, (Double.ofNat 10).powNat defaultPlaces = .finite false m ∧
      units m.index = 10 ^ 10 * one := by
  obtain ⟨m, hround, hindex⟩ := round_eq_finite false (n := 10 ^ 10) Nat.one_pos (by decide)
  refine ⟨m, (Double.powNat_ofNat (by decide) (by decide)).trans hround, ?_⟩
  rw [hindex, Magnitude.units_nearest_whole (by decide)]

/-- How many tenth places a magnitude is rounded to. -/
def lastPlaces (m : Magnitude) : ℕ :=
  wholeNear (units (nearest (units m.index * 10 ^ 10) 1))

section Rounding

variable {m : Magnitude}

/-- **What is not extreme** is rounded to a whole number of tenth places, scaled down again. -/
theorem toPlaces_eq (negative : Bool) (h : m.toRat ≤ 10 ^ 10) :
    toPlaces defaultPlaces (.finite negative m) = .round negative (lastPlaces m * one) (10 ^ 10) := by
  obtain ⟨factor, hfactor, hunits⟩ := exists_factor
  have hle : units m.index ≤ 10 ^ 10 * one := by
    rw [Magnitude.toRat, div_le_iff₀ Magnitude.one_pos_rat] at h
    exact_mod_cast h
  have hbound : nearest (units m.index * 10 ^ 10) 1 < Magnitude.count := by
    refine Magnitude.nearest_lt_count Nat.one_pos ?_
    rw [Nat.mul_one]
    refine Nat.le_trans (Nat.mul_le_mul_right _ hle) ?_
    rw [Nat.mul_right_comm]
    exact Magnitude.whole_le_greatest (by decide)
  have hscaled : Double.finite negative m * .finite false factor =
      .finite negative ⟨nearest (units m.index * 10 ^ 10) 1, hbound⟩ := by
    show Double.round (negative != false) (units m.index * units factor.index) one = _
    rw [hunits, Bool.bne_false, ← Nat.mul_assoc,
      Double.round_congr negative Magnitude.one_pos Nat.one_pos (Nat.mul_one _), Double.round,
      dif_pos hbound]
  obtain ⟨whole, hwhole, hlast⟩ := Double.roundWhole_eq negative
    ⟨nearest (units m.index * 10 ^ 10) 1, hbound⟩
  rw [toPlaces, hfactor, hscaled]
  show (if (true && true) = true then _ else _) = _
  rw [if_pos (Bool.true_and true), hwhole, Double.div_whole negative false hlast hunits (by decide),
    Bool.bne_false, lastPlaces]

/-- A number of at least one tenth place is not rounded to none. -/
theorem lastPlaces_pos (h : 1 / 10 ^ 10 ≤ m.toRat) : 0 < lastPlaces m := by
  have hone : one ≤ units m.index * 10 ^ 10 := by
    rw [Magnitude.toRat, div_le_div_iff₀ (by norm_num) Magnitude.one_pos_rat, one_mul] at h
    exact_mod_cast h
  have hscaled : one ≤ units (nearest (units m.index * 10 ^ 10) 1) := by
    rw [← Nat.one_mul one, ← Magnitude.units_nearest_whole (n := 1) (by decide), Nat.one_mul]
    exact units_strictMono.monotone (Magnitude.nearest_mono Nat.one_pos Nat.one_pos
      (Nat.mul_le_mul_right 1 hone))
  rw [lastPlaces, Nat.pos_iff_ne_zero, ← Nat.one_le_iff_ne_zero, ← Magnitude.wholeNear_whole 1]
  exact Magnitude.wholeNear_mono (by rwa [Nat.one_mul])

/-- How far off the tenth places are. -/
theorem abs_lastPlaces_sub_le (m : Magnitude) :
    |(lastPlaces m : ℚ) - m.toRat * 10 ^ 10| ≤ 1 / 2 + (m.toRat * 10 ^ 10 / 2 ^ 53 + 1 / (2 * one)) := by
  have hwhole := Magnitude.abs_wholeNear_sub_le (units (nearest (units m.index * 10 ^ 10) 1))
  have hscaled := Magnitude.abs_units_nearest_div_sub_le (units m.index * 10 ^ 10) Nat.one_pos
  have hcount : ((units m.index * 10 ^ 10 : ℕ) : ℚ) / (1 : ℕ) / one = m.toRat * 10 ^ 10 := by
    rw [Magnitude.toRat, div_mul_eq_mul_div, Nat.cast_one, div_one]
    push_cast
    rfl
  rw [hcount] at hscaled
  exact (abs_sub_le _ _ _).trans (add_le_add hwhole hscaled)

/-- A double of at least one tenth place that is the nearest one to a number of tenth places has a decimal
of not more places. -/
theorem le_exponent_of_roundsTo {steps : ℕ} (hleast : one ≤ units m.index * 10 ^ 10)
    (hread : RoundsTo ⟨steps, -10⟩ m.index) (tie : Decimal.Tie) : -10 ≤ (shortest tie m).exponent := by
  have hunits : 0 < units m.index :=
    Nat.pos_of_mul_pos_right (Nat.lt_of_lt_of_le Magnitude.one_pos hleast)
  have hpos : 0 < m.index := by
    rw [← units_strictMono.lt_iff_lt, Magnitude.units_zero]
    exact hunits
  refine Decimal.le_exponent_shortest tie hpos ?_ hread
  have hfirst := Decimal.lt_pow_leadingPlace (Nat.mul_pos Nat.two_pos hunits)
    (Nat.mul_pos Nat.two_pos Magnitude.one_pos)
  have hten : (10 : ℚ) ^ (-10 : ℤ) ≤ (2 * units m.index : ℕ) / (2 * one : ℕ) := by
    rw [le_div_iff₀ (by exact_mod_cast Nat.mul_pos Nat.two_pos Magnitude.one_pos), zpow_neg,
      inv_mul_le_iff₀ (by norm_num)]
    exact_mod_cast (show 2 * one ≤ 10 ^ 10 * (2 * units m.index) by omega)
  have hless := (zpow_lt_zpow_iff_right₀ (by norm_num)).mp (hten.trans_lt hfirst)
  omega

/-- **Rounding to tenth places** leaves a number that is neither zero nor extreme a double close by, which
is not zero and has a decimal of at most ten places that is read as the double. -/
theorem exists_toPlaces (negative : Bool) (hlow : 1 / 10 ^ 10 ≤ m.toRat) (hhigh : m.toRat ≤ 10 ^ 10) :
    ∃ m' : Magnitude, toPlaces defaultPlaces (.finite negative m) = .finite negative m' ∧ m'.index ≠ 0 ∧
      (∀ tie, -10 ≤ (shortest tie m').exponent) ∧
      |m'.toRat - m.toRat| ≤ 6 / 10 ^ 11 + m.toRat / 10 ^ 15 := by
  have hten : 0 < 10 ^ 10 := by decide
  have htiny := Magnitude.half_unit_le
  have hoff := abs_le.mp (abs_lastPlaces_sub_le m)
  have hmany : lastPlaces m ≤ 10 ^ 30 := by
    have hbound : (lastPlaces m : ℚ) ≤ (10 ^ 30 : ℕ) := by
      push_cast
      linarith
    exact_mod_cast hbound
  obtain ⟨m', hround, hindex⟩ := round_eq_finite negative hten hmany
  have hleast : one ≤ units m'.index * 10 ^ 10 := by
    refine one_le_units_smallest.trans (Nat.mul_le_mul_right _ (units_strictMono.monotone ?_))
    rw [hindex]
    exact Magnitude.nearest_mono hten hten
      (Nat.mul_le_mul_right _ (Nat.le_mul_of_pos_left one (lastPlaces_pos hlow)))
  have hpos : m'.index ≠ 0 := by
    intro hzero
    rw [hzero, Magnitude.units_zero, Nat.zero_mul] at hleast
    exact absurd Magnitude.one_pos (Nat.not_lt.mpr hleast)
  refine ⟨m', by rw [toPlaces_eq negative hhigh, hround], hpos,
    le_exponent_of_roundsTo hleast (show RoundsTo ⟨lastPlaces m, -10⟩ m'.index from hindex.symm), ?_⟩
  have hlast := Magnitude.abs_toRat_nearest_sub_le (lastPlaces m) hten
  rw [← hindex, ← Magnitude.toRat] at hlast
  push_cast at hlast
  rw [abs_le] at hlast ⊢
  constructor <;> linarith

/-! ## The three forms of a result -/

theorem withPlaces_finite (places : ℕ) (negative : Bool) (m : Magnitude) :
    withPlaces places (.finite negative m) =
      if isExtreme (.finite negative m) then
        (Double.finite negative m).exponential true (min places maxPlaces)
      else if (toPlaces (min places maxPlaces) (.finite negative m)).isZero then "0"
      else (toPlaces (min places maxPlaces) (.finite negative m)).plain := by
  rw [withPlaces]
  exact if_neg (by simp [Double.isFinite])

/-- A zero is shown as a zero without a sign. -/
theorem result_of_index_eq_zero (negative : Bool) (h : m.index = 0) : result (.finite negative m) = "0" := by
  have hextreme : ¬ isExtreme (.finite negative m) = true := by
    rw [isExtreme_iff, Magnitude.toRat_eq_zero h]
    norm_num
  have hnone : lastPlaces m = 0 := by
    have hwhole := Magnitude.wholeNear_whole 0
    rw [Nat.zero_mul] at hwhole
    rw [lastPlaces, h, Magnitude.units_zero, Nat.zero_mul, Magnitude.nearest_one_of_lt (by decide),
      Magnitude.units_zero, hwhole]
  have hzero : (Double.round negative (0 * one) (10 ^ 10)).isZero = true := by
    rw [Nat.zero_mul, Double.round]
    rfl
  rw [result, withPlaces_finite, if_neg hextreme, min_eq_left (by decide),
    toPlaces_eq negative (by rw [Magnitude.toRat_eq_zero h]; norm_num), hnone, if_pos hzero]

/-- What is extreme is shown in exponential form. -/
theorem withPlaces_of_isExtreme {negative : Bool} (h : isExtreme (.finite negative m) = true) (places : ℕ) :
    withPlaces places (.finite negative m) =
      (Double.finite negative m).exponential true (min places maxPlaces) := by
  rw [withPlaces_finite, if_pos h]

/-- What is not extreme is shown with all the places of the double that rounding leaves. -/
theorem result_eq_plain {negative : Bool} {m' : Magnitude} (h : ¬ isExtreme (.finite negative m) = true)
    (hplaces : toPlaces defaultPlaces (.finite negative m) = .finite negative m') (hpos : m'.index ≠ 0) :
    result (.finite negative m) = (Double.finite negative m').plain := by
  rw [result, withPlaces_finite, if_neg h, min_eq_left (by decide), hplaces, if_neg]
  exact fun hzero => hpos (beq_iff_eq.mp hzero)

/-- **What is neither extreme nor zero** is shown with all its places: those of a double close by. -/
theorem exists_result_eq_plain {negative : Bool} (h : ¬ isExtreme (.finite negative m) = true)
    (hpos : m.index ≠ 0) :
    ∃ m' : Magnitude, result (.finite negative m) = (Double.finite negative m').plain ∧ m'.index ≠ 0 ∧
      (∀ tie, -10 ≤ (shortest tie m').exponent) ∧
      |m'.toRat - m.toRat| ≤ 6 / 10 ^ 11 + m.toRat / 10 ^ 15 := by
  have hextreme := h
  rw [isExtreme_iff, not_or, not_lt, not_and, not_lt] at hextreme
  obtain ⟨m', hplaces, hpos', hexponent, hoff⟩ := exists_toPlaces negative
    (hextreme.2 (Magnitude.toRat_pos_iff.mpr hpos)) hextreme.1
  exact ⟨m', result_eq_plain h hplaces hpos', hpos', hexponent, hoff⟩

end Rounding

end Abacus.Display
