import Abacus.Proofs.Display

/-!
# Order — results are shown in the order of their numbers

The text of a finite result shows one number (`Shows`).  Of a magnitude is shown a zero, or its rounded
digits if it is extreme, or else the shortest decimal of the double that is left after rounding to tenth
places (`IsShown`).  Digits and places are rounded in order, each by themselves.  Where one takes over
from the other both show the power of ten itself: what is less than a bound is not shown as more, and
what is not less is not shown as less.  So the order of the numbers is kept over all finite doubles
(`result_keeps_order`).
-/

namespace Abacus.Display

open Decimal (rounded shortest)
open Magnitude (nearest one units units_strictMono)

/-- The number that a text shows, with its sign. -/
def Shows (text : String) (x : ℚ) : Prop :=
  ∃ negative value, Json.Denotes text.toList negative value ∧ x = if negative then -value else value

/-- A text shows one number only. -/
theorem Shows.unique {text : String} {x y : ℚ} (h : Shows text x) (h' : Shows text y) : x = y := by
  obtain ⟨negative, value, hvalue, rfl⟩ := h
  obtain ⟨negative', value', hvalue', rfl⟩ := h'
  obtain ⟨rfl, rfl⟩ := hvalue.unique hvalue'
  rfl

/-! ## What is shown of a magnitude -/

/-- The number that is shown for a magnitude. -/
inductive IsShown (m : Magnitude) : ℚ → Prop where
  | zero : m.index = 0 → IsShown m 0
  | extreme : m.index ≠ 0 → 10 ^ 10 < m.toRat ∨ m.toRat < 1 / 10 ^ 10 →
      IsShown m (rounded defaultPlaces m).toRat
  | placed {m' : Magnitude} : 1 / 10 ^ 10 ≤ m.toRat → m.toRat ≤ 10 ^ 10 →
      m'.index = nearest (lastPlaces m * one) (10 ^ 10) → IsShown m (shortest .up m').toRat

/-- The text of a finite double shows its magnitude, with a minus if it is below zero. -/
theorem exists_isShown (negative : Bool) (m : Magnitude) :
    ∃ x, IsShown m x ∧ Shows (result (.finite negative m)) (if negative then -x else x) := by
  by_cases hzero : m.index = 0
  · refine ⟨0, .zero hzero, false, 0, ?_, by simp⟩
    have hdenotes := Decimal.denotes_positional (d := ⟨0, 0⟩) (Or.inr (le_refl 0))
    rw [Decimal.toRat, Nat.cast_zero, zero_mul] at hdenotes
    rw [result_of_index_eq_zero negative hzero]
    exact hdenotes
  by_cases hextreme : isExtreme (.finite negative m) = true
  · refine ⟨_, .extreme hzero ((isExtreme_iff.mp hextreme).imp_right And.right), negative, _, ?_, rfl⟩
    rw [result, withPlaces_of_isExtreme hextreme]
    exact Double.denotes_rounded true defaultPlaces negative hzero
  · have hbounds := hextreme
    rw [isExtreme_iff, not_or, not_lt, not_and, not_lt] at hbounds
    have hlow := hbounds.2 (Magnitude.toRat_pos_iff.mpr hzero)
    obtain ⟨m', hplaces, hpos, -⟩ := exists_toPlaces negative hlow hbounds.1
    have hindex : m'.index = nearest (lastPlaces m * one) (10 ^ 10) := by
      rw [toPlaces_eq negative hbounds.1, Double.round] at hplaces
      split at hplaces
      · cases hplaces
        rfl
      · cases hplaces
    refine ⟨_, .placed hlow hbounds.1 hindex, negative, _, ?_, rfl⟩
    rw [result_eq_plain hextreme hplaces hpos]
    exact Double.denotes_plain negative m'

/-! ## The bounds -/

/-- The least double that is shown with all its places. -/
def leastPlaced : Magnitude :=
  ⟨nearest one (10 ^ 10), by decide +kernel⟩

/-- The greatest one. -/
def greatestPlaced : Magnitude :=
  ⟨nearest (10 ^ 10 * one) 1, by decide +kernel⟩

/-- The next double is extreme. -/
def leastBeyond : Magnitude :=
  ⟨greatestPlaced.index + 1, by decide +kernel⟩

theorem greatestPlaced_lt_leastBeyond : greatestPlaced.index < leastBeyond.index := by
  decide +kernel

section Bounds

variable {m m' : Magnitude} {x x' : ℚ}

theorem leastPlaced_le_iff : leastPlaced.index ≤ m.index ↔ 1 / 10 ^ 10 ≤ m.toRat := by
  rw [← not_lt, leastPlaced, lt_smallest_iff, not_lt, Magnitude.toRat,
    div_le_div_iff₀ (by norm_num) Magnitude.one_pos_rat, one_mul]
  exact_mod_cast Iff.rfl

theorem le_greatestPlaced_iff : m.index ≤ greatestPlaced.index ↔ m.toRat ≤ 10 ^ 10 := by
  have hunits : units greatestPlaced.index = 10 ^ 10 * one := by
    rw [greatestPlaced, Magnitude.units_nearest_whole (by decide)]
  rw [← Magnitude.toRat_le_iff, Magnitude.toRat_whole hunits, Nat.cast_pow, Nat.cast_ofNat]

/-- Tenth places are counted in the order of the magnitudes. -/
theorem lastPlaces_mono (h : m.index ≤ m'.index) : lastPlaces m ≤ lastPlaces m' :=
  Magnitude.wholeNear_mono (units_strictMono.monotone (Magnitude.nearest_mono Nat.one_pos Nat.one_pos
    (Nat.mul_le_mul_right 1 (Nat.mul_le_mul_right _ (units_strictMono.monotone h)))))

/-- Magnitudes that are rounded to tenth places keep their order. -/
theorem placed_mono (h : m.index ≤ m'.index) :
    nearest (lastPlaces m * one) (10 ^ 10) ≤ nearest (lastPlaces m' * one) (10 ^ 10) :=
  Magnitude.nearest_mono (by decide) (by decide)
    (Nat.mul_le_mul_right _ (Nat.mul_le_mul_right one (lastPlaces_mono h)))

/-- The least double that is shown with all its places is shown as ten to the minus tenth. -/
theorem placed_leastPlaced :
    leastPlaced.index = nearest (lastPlaces leastPlaced * one) (10 ^ 10) ∧
      (shortest .up leastPlaced).toRat = 1 / 10 ^ 10 := by
  have hdigits : shortest .up leastPlaced = ⟨1, -10⟩ := by decide +kernel
  refine ⟨by decide +kernel, ?_⟩
  rw [hdigits, Decimal.toRat]
  norm_num

/-- The greatest one is shown as ten to the tenth. -/
theorem placed_greatestPlaced :
    greatestPlaced.index = nearest (lastPlaces greatestPlaced * one) (10 ^ 10) ∧
      (shortest .up greatestPlaced).toRat = 10 ^ 10 := by
  have hdigits : shortest .up greatestPlaced = ⟨1, 10⟩ := by decide +kernel
  refine ⟨by decide +kernel, ?_⟩
  rw [hdigits, Decimal.toRat]
  norm_num

/-- Less than ten to the minus tenth is shown as no more. -/
theorem IsShown.le_least (h : IsShown m x) (hm : m.toRat < 1 / 10 ^ 10) : x ≤ 1 / 10 ^ 10 := by
  cases h with
  | zero _ => norm_num
  | extreme hpos _ =>
      have hbound := Decimal.toRat_rounded_le_pow defaultPlaces (-10) hpos (hm.trans_eq (by norm_num))
      exact hbound.trans_eq (by norm_num)
  | placed hlow _ _ => exact absurd hm (not_lt.mpr hlow)

/-- And no less than it as no less. -/
theorem IsShown.least_le (h : IsShown m x) (hm : 1 / 10 ^ 10 ≤ m.toRat) : 1 / 10 ^ 10 ≤ x := by
  cases h with
  | zero hzero =>
      rw [Magnitude.toRat_eq_zero hzero] at hm
      exact hm
  | extreme _ _ =>
      have hbound := Decimal.pow_le_toRat_rounded defaultPlaces (-10) (le_trans (by norm_num) hm)
      exact le_trans (by norm_num) hbound
  | placed _ _ hplaced =>
      rw [← placed_leastPlaced.2]
      refine Decimal.toRat_shortest_le .up ?_
      rw [hplaced, placed_leastPlaced.1]
      exact placed_mono (leastPlaced_le_iff.mpr hm)

/-- No more than ten to the tenth is shown as no more. -/
theorem IsShown.le_greatest (h : IsShown m x) (hm : m.toRat ≤ 10 ^ 10) : x ≤ 10 ^ 10 := by
  rcases lt_or_ge m.toRat (1 / 10 ^ 10) with hless | hge
  · exact (h.le_least hless).trans (by norm_num)
  cases h with
  | zero _ => norm_num
  | extreme _ hbeyond => exact absurd hm (not_le.mpr (hbeyond.resolve_right (not_lt.mpr hge)))
  | placed _ _ hplaced =>
      rw [← placed_greatestPlaced.2]
      refine Decimal.toRat_shortest_le .up ?_
      rw [hplaced, placed_greatestPlaced.1]
      exact placed_mono (le_greatestPlaced_iff.mpr hm)

/-- And more than it as no less. -/
theorem IsShown.greatest_le (h : IsShown m x) (hm : 10 ^ 10 < m.toRat) : 10 ^ 10 ≤ x := by
  cases h with
  | zero hzero =>
      rw [Magnitude.toRat_eq_zero hzero] at hm
      exact hm.le
  | extreme _ _ =>
      have hbound := Decimal.pow_le_toRat_rounded defaultPlaces 10 (le_trans (by norm_num) hm.le)
      exact le_trans (by norm_num) hbound
  | placed _ hhigh _ => exact absurd hm (not_lt.mpr hhigh)

/-! ## The order -/

theorem IsShown.nonneg (h : IsShown m x) : 0 ≤ x := by
  cases h with
  | zero _ => exact le_refl 0
  | extreme _ _ => exact Decimal.toRat_nonneg _
  | placed _ _ _ => exact Decimal.toRat_nonneg _

/-- Extreme magnitudes and zeros are shown in their order. -/
theorem IsShown.mono_of_extreme (h : IsShown m x) (h' : IsShown m' x') (hle : m.index ≤ m'.index)
    (hbeyond : 10 ^ 10 < m.toRat ∨ m.toRat < 1 / 10 ^ 10)
    (hbeyond' : 10 ^ 10 < m'.toRat ∨ m'.toRat < 1 / 10 ^ 10) : x ≤ x' := by
  cases h with
  | zero _ => exact h'.nonneg
  | placed hlow hhigh _ => exact absurd hbeyond (not_or.mpr ⟨not_lt.mpr hhigh, not_lt.mpr hlow⟩)
  | extreme hpos _ =>
      cases h' with
      | zero hzero' => exact absurd (Nat.le_zero.mp (hle.trans_eq hzero')) hpos
      | placed hlow hhigh _ => exact absurd hbeyond' (not_or.mpr ⟨not_lt.mpr hhigh, not_lt.mpr hlow⟩)
      | extreme _ _ => exact Decimal.toRat_rounded_mono defaultPlaces hpos hle

/-- And so are those between the bounds. -/
theorem IsShown.mono_of_placed (h : IsShown m x) (h' : IsShown m' x') (hle : m.index ≤ m'.index)
    (hlow : 1 / 10 ^ 10 ≤ m.toRat) (hhigh : m'.toRat ≤ 10 ^ 10) : x ≤ x' := by
  have hrat := Magnitude.toRat_le_iff.mpr hle
  cases h with
  | zero _ => exact h'.nonneg
  | extreme _ hbeyond =>
      exact absurd hbeyond (not_or.mpr ⟨not_lt.mpr (hrat.trans hhigh), not_lt.mpr hlow⟩)
  | placed _ _ hindex =>
      cases h' with
      | zero hzero' =>
          rw [Magnitude.toRat_eq_zero hzero'] at hrat
          exact absurd (hlow.trans hrat) (by norm_num)
      | extreme _ hbeyond' =>
          exact absurd hbeyond' (not_or.mpr ⟨not_lt.mpr hhigh, not_lt.mpr (hlow.trans hrat)⟩)
      | placed _ _ hindex' =>
          refine Decimal.toRat_shortest_le .up ?_
          rw [hindex, hindex']
          exact placed_mono hle

/-- **Magnitudes** are shown in their order. -/
theorem IsShown.mono (h : IsShown m x) (h' : IsShown m' x') (hle : m.index ≤ m'.index) : x ≤ x' := by
  have hrat := Magnitude.toRat_le_iff.mpr hle
  rcases lt_or_ge m'.toRat (1 / 10 ^ 10) with hless' | hge'
  · exact h.mono_of_extreme h' hle (Or.inr (hrat.trans_lt hless')) (Or.inr hless')
  rcases lt_or_ge m.toRat (1 / 10 ^ 10) with hless | hge
  · exact (h.le_least hless).trans (h'.least_le hge')
  rcases le_or_gt m'.toRat (10 ^ 10) with hle' | hgt'
  · exact h.mono_of_placed h' hle hge hle'
  rcases le_or_gt m.toRat (10 ^ 10) with hbelow | hgt
  · exact (h.le_greatest hbelow).trans (h'.greatest_le hgt')
  · exact h.mono_of_extreme h' hle (Or.inl hgt) (Or.inl hgt')

/-- Of the two zeros is shown a zero. -/
theorem IsShown.eq_zero (h : IsShown m x) (hm : m.toRat ≤ 0) : x = 0 := by
  cases h with
  | zero _ => rfl
  | extreme hpos _ => exact absurd hm (not_le.mpr (Magnitude.toRat_pos_iff.mpr hpos))
  | placed hlow _ _ => exact absurd (hlow.trans hm) (by norm_num)

/-- **Results keep their order**: the texts of two finite doubles show a number each, and the text of the
lesser double does not show the greater number. -/
theorem result_keeps_order {value value' : Double} {v w : ℚ} (hv : value.toRat? = some v)
    (hw : value'.toRat? = some w) (hle : v ≤ w) :
    (∃ x, Shows (result value) x) ∧ (∃ y, Shows (result value') y) ∧
      ∀ x y, Shows (result value) x → Shows (result value') y → x ≤ y := by
  obtain ⟨negative, m, rfl, -⟩ := Double.exists_of_toRat? hv
  obtain ⟨negative', m', rfl, -⟩ := Double.exists_of_toRat? hw
  obtain rfl := Option.some.inj hv
  obtain rfl := Option.some.inj hw
  obtain ⟨x, hx, hshows⟩ := exists_isShown negative m
  obtain ⟨y, hy, hshows'⟩ := exists_isShown negative' m'
  refine ⟨⟨_, hshows⟩, ⟨_, hshows'⟩, fun a b ha hb => ?_⟩
  rw [ha.unique hshows, hb.unique hshows']
  cases negative with
  | false =>
      cases negative' with
      | false => exact hx.mono hy (Magnitude.toRat_le_iff.mp hle)
      | true =>
          -- what is not below zero is not more than what is not above it, so both are zeros
          have hnonneg := m.toRat_nonneg
          have hnonneg' := m'.toRat_nonneg
          simp only [Bool.false_eq_true, if_false, if_true] at hle ⊢
          rw [hx.eq_zero (by linarith), hy.eq_zero (by linarith), neg_zero]
  | true =>
      cases negative' with
      | false => exact (neg_nonpos.mpr hx.nonneg).trans hy.nonneg
      | true => exact neg_le_neg (hy.mono hx (Magnitude.toRat_le_iff.mp (neg_le_neg_iff.mp hle)))

/-- It keeps the order where exponential texts take over. -/
theorem result_keeps_order_greatest :
    (Double.finite false greatestPlaced).toRat? = some greatestPlaced.toRat ∧
      (Double.finite false leastBeyond).toRat? = some leastBeyond.toRat ∧
      greatestPlaced.toRat ≤ leastBeyond.toRat ∧
      (∃ x, Shows (result (.finite false greatestPlaced)) x) ∧
      (∃ y, Shows (result (.finite false leastBeyond)) y) ∧
      ∀ x y, Shows (result (.finite false greatestPlaced)) x →
        Shows (result (.finite false leastBeyond)) y → x ≤ y :=
  have hle : greatestPlaced.toRat ≤ leastBeyond.toRat :=
    Magnitude.toRat_le_iff.mpr greatestPlaced_lt_leastBeyond.le
  ⟨rfl, rfl, hle, result_keeps_order rfl rfl hle⟩

example : result (.finite false greatestPlaced) = "10000000000" ∧
    result (.finite false leastBeyond) = "1.0000000000e+10" := by
  decide +kernel

end Bounds

end Abacus.Display
