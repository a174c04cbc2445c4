import Mathlib.Algebra.Order.Field.Basic
import Mathlib.Algebra.Order.AbsoluteValue.Basic
import Mathlib.Data.Rat.Cast.Order
import Mathlib.Tactic.FieldSimp
import Mathlib.Tactic.Positivity
import Abacus.Proofs.Double.Whole

/-!
# Values — the rational number of a double

A finite double is a rational number (`Double.toRat?`).  The double nearest to a quotient is off by no
more than half of the gap in which the quotient lies, and so by no more than the fifty-third binary
place of the quotient and half a unit (`abs_toRat_nearest_sub_le`).  Products and quotients of finite
doubles are the rational ones, rounded once (`mul_finite`, `div_finite`).  Rounding to a whole number is
exact (`roundWhole_eq`).
-/

namespace Abacus

/-- A whole number is at most a half away from a quotient if it is so in the parts of the quotient. -/
theorem abs_sub_div_le_half {whole num den : ℕ} (hden : 0 < den)
    (hlow : 2 * num ≤ 2 * (whole * den) + den) (hhigh : 2 * (whole * den) ≤ 2 * num + den) :
    |(whole : ℚ) - num / den| ≤ 1 / 2 := by
  have hpos : (0 : ℚ) < den := by exact_mod_cast hden
  have hlow' : (2 : ℚ) * num ≤ 2 * (whole * den) + den := by exact_mod_cast hlow
  have hhigh' : (2 : ℚ) * (whole * den) ≤ 2 * num + den := by exact_mod_cast hhigh
  rw [abs_le, neg_le_sub_iff_le_add, sub_le_iff_le_add, div_le_iff₀ hpos, ← sub_le_iff_le_add',
    le_div_iff₀ hpos]
  constructor <;> linarith

namespace Magnitude

/-- The number that a magnitude is. -/
def toRat (m : Magnitude) : ℚ :=
  units m.index / one

theorem one_pos_rat : (0 : ℚ) < one := by
  exact_mod_cast one_pos

theorem toRat_nonneg (m : Magnitude) : 0 ≤ m.toRat :=
  div_nonneg (Nat.cast_nonneg _) one_pos_rat.le

/-- Only the magnitude zero has no units. -/
theorem units_pos {i : ℕ} (h : i ≠ 0) : 0 < units i := by
  have := units_strictMono (Nat.pos_of_ne_zero h)
  rwa [units_zero] at this

theorem toRat_whole {m : Magnitude} {k : ℕ} (h : units m.index = k * one) : m.toRat = k := by
  rw [toRat, h, Nat.cast_mul, mul_div_cancel_right₀ _ one_pos_rat.ne']

theorem toRat_eq_zero {m : Magnitude} (h : m.index = 0) : m.toRat = 0 := by
  rw [toRat, h, units_zero, Nat.cast_zero, zero_div]

theorem toRat_pos_iff {m : Magnitude} : 0 < m.toRat ↔ m.index ≠ 0 :=
  ⟨fun hpos hzero => hpos.ne' (toRat_eq_zero hzero),
    fun h => div_pos (by exact_mod_cast units_pos h) one_pos_rat⟩

theorem toRat_le_iff {m m' : Magnitude} : m.toRat ≤ m'.toRat ↔ m.index ≤ m'.index := by
  rw [toRat, toRat, div_le_div_iff_of_pos_right one_pos_rat, Nat.cast_le, units_strictMono.le_iff_le]

/-- The gap above a magnitude is a unit, or not more than the last of the magnitude's fifty-three
bits. -/
theorem exists_gap_above (i : ℕ) :
    ∃ gap, units (i + 1) = units i + gap ∧ (gap = 1 ∨ binade * gap ≤ units i) := by
  obtain ⟨cut, m, hhigh, hlow, rfl⟩ := exists_gap i
  rw [Nat.add_assoc, units_add hhigh.le hlow, units_add hhigh (by omega)]
  refine ⟨2 ^ cut, Nat.succ_mul m (2 ^ cut), ?_⟩
  rcases hlow with rfl | hlow
  · exact Or.inl rfl
  · exact Or.inr (Nat.mul_le_mul_right _ hlow)

/-- **The nearest magnitude** is off by half a unit, or by the fifty-third binary place of the
quotient. -/
theorem abs_units_nearest_sub_le (num : ℕ) {den : ℕ} (hden : 0 < den) :
    |(units (nearest num den) : ℚ) - num / den| ≤ num / den / 2 ^ 53 + 1 / 2 := by
  have hpos : (0 : ℚ) < den := by exact_mod_cast hden
  obtain ⟨i, hlow, hhigh, hnearest⟩ := exists_floor num hden
  obtain ⟨gap, habove, hgap⟩ := exists_gap_above i
  rw [habove] at hhigh hnearest
  have hbelow : (units i : ℚ) ≤ num / den := by
    rw [le_div_iff₀ hpos]
    exact_mod_cast hlow
  have hbeyond : (num : ℚ) / den < units i + gap := by
    rw [div_lt_iff₀ hpos]
    exact_mod_cast hhigh
  have hmiddle (a b : ℕ) : a < b * den ↔ (a : ℚ) / den < b := by
    rw [div_lt_iff₀ hpos]
    exact_mod_cast Iff.rfl
  have hmiddle' (a b : ℕ) : b * den < a ↔ (b : ℚ) < a / den := by
    rw [lt_div_iff₀ hpos]
    exact_mod_cast Iff.rfl
  -- the nearer of two neighbours is at most half the gap away
  have hhalf : |(units (nearest num den) : ℚ) - num / den| ≤ gap / 2 := by
    simp only [hmiddle, hmiddle'] at hnearest
    push_cast at hnearest
    simp only [mul_div_assoc] at hnearest
    rw [abs_le, hnearest]
    split
    · constructor <;> linarith
    · split
      · rw [habove]
        push_cast
        constructor <;> linarith
      · split
        · constructor <;> linarith
        · rw [habove]
          push_cast
          constructor <;> linarith
  refine hhalf.trans ?_
  rcases hgap with rfl | hgap
  · have : (0 : ℚ) ≤ num / den / 2 ^ 53 := by positivity
    push_cast
    linarith
  · have hbits : (2 : ℚ) ^ 52 * gap ≤ units i := by
      rw [binade_eq] at hgap
      exact_mod_cast hgap
    have hplace : (gap : ℚ) / 2 ≤ num / den / 2 ^ 53 := by
      rw [div_le_div_iff₀ (by norm_num) (by norm_num)]
      linarith
    linarith

/-- Counted in ones. -/
theorem abs_units_nearest_div_sub_le (num : ℕ) {den : ℕ} (hden : 0 < den) :
    |(units (nearest num den) : ℚ) / one - num / den / one| ≤ num / den / one / 2 ^ 53 + 1 / (2 * one) := by
  have hone := one_pos_rat
  rw [← sub_div, abs_div, abs_of_pos hone, div_le_iff₀ hone]
  refine (abs_units_nearest_sub_le num hden).trans (le_of_eq ?_)
  field_simp

theorem abs_toRat_nearest_sub_le (num : ℕ) {den : ℕ} (hden : 0 < den) :
    |(units (nearest (num * one) den) : ℚ) / one - num / den| ≤
      num / den / 2 ^ 53 + 1 / (2 * one) := by
  have hunits := abs_units_nearest_div_sub_le (num * one) hden
  rwa [Nat.cast_mul, mul_div_right_comm, mul_div_cancel_right₀ _ one_pos_rat.ne'] at hunits

/-- Half a unit is less than can be seen. -/
theorem half_unit_le : 1 / (2 * (one : ℚ)) ≤ 1 / 10 ^ 20 := by
  have hone : 10 ^ 20 ≤ 2 * one := by
    have hlong : 2 ^ 100 ≤ one := by
      rw [one_eq]
      exact Nat.pow_le_pow_right Nat.two_pos (by decide)
    omega
  exact one_div_le_one_div_of_le (by positivity) (by exact_mod_cast hone)

/-! ## Whole numbers -/

/-- A magnitude of more than fifty-three bits before the point is whole. -/
theorem one_dvd_units {i : ℕ} (h : 2 * binade * one ≤ units i) : one ∣ units i := by
  obtain ⟨cut, m, hhigh, hlow, rfl⟩ := exists_gap i
  rw [units_add hhigh.le hlow] at h ⊢
  have hcut : unitPlaces ≤ cut := by
    refine Nat.le_of_not_lt fun hless => ?_
    have hpow : 2 ^ cut ≤ one := by
      rw [one_eq]
      exact Nat.pow_le_pow_right Nat.two_pos hless.le
    have hshort : m * 2 ^ cut < 2 * binade * one :=
      Nat.lt_of_lt_of_le (Nat.mul_lt_mul_of_pos_right hhigh (Nat.two_pow_pos cut))
        (Nat.mul_le_mul_left _ hpow)
    omega
  rw [one_eq]
  exact Nat.dvd_mul_left_of_dvd (Nat.pow_dvd_pow 2 hcut) m

/-- The whole number next to a number of units, the greater one half-way between two. -/
def wholeNear (n : ℕ) : ℕ :=
  (2 * n + one) / (2 * one)

theorem wholeNear_whole (whole : ℕ) : wholeNear (whole * one) = whole := by
  have hone := one_pos
  rw [wholeNear, show 2 * (whole * one) + one = one + whole * (2 * one) by ring,
    Nat.add_mul_div_right _ _ (by omega), Nat.div_eq_of_lt (by omega), Nat.zero_add]

theorem wholeNear_mono {n n' : ℕ} (h : n ≤ n') : wholeNear n ≤ wholeNear n' :=
  Nat.div_le_div_right (by omega)

/-- The whole number is at most a half away. -/
theorem abs_wholeNear_sub_le (n : ℕ) : |(wholeNear n : ℚ) - n / one| ≤ 1 / 2 := by
  have hdiv := Nat.div_add_mod' (2 * n + one) (2 * one)
  have hmod := Nat.mod_lt (2 * n + one) (show 0 < 2 * one by have := one_pos; omega)
  rw [← wholeNear, Nat.mul_left_comm] at hdiv
  exact abs_sub_div_le_half one_pos (by omega) (by omega)

/-- The whole number next to a magnitude is a magnitude. -/
theorem exists_units_eq_whole (i : ℕ) : ∃ j, units j = wholeNear (units i) * one := by
  rcases Nat.lt_or_ge (units i) (2 * binade * one) with hshort | hlong
  · have hle : wholeNear (units i) ≤ 2 * binade := by
      rw [← wholeNear_whole (2 * binade)]
      exact wholeNear_mono hshort.le
    obtain ⟨j, hj⟩ := exists_units_eq hle unitPlaces
    rw [← one_eq] at hj
    exact ⟨j, hj⟩
  · obtain ⟨whole, hwhole⟩ := one_dvd_units hlong
    rw [Nat.mul_comm] at hwhole
    exact ⟨i, by rw [hwhole, wholeNear_whole]⟩

end Magnitude

namespace Double

open Magnitude (units one)

/-- The number that a finite double is. -/
def toRat? : Double → Option ℚ
  | .nan | .infinite _ => none
  | .finite negative m => some (if negative then -m.toRat else m.toRat)

theorem abs_signed (negative : Bool) {r : ℚ} (h : 0 ≤ r) : |if negative then -r else r| = r := by
  cases negative with
  | false => exact abs_of_nonneg h
  | true => exact (abs_neg r).trans (abs_of_nonneg h)

theorem abs_signed_sub (negative : Bool) (r r' : ℚ) :
    |(if negative then -r else r) - if negative then -r' else r'| = |r - r'| := by
  cases negative with
  | false => rfl
  | true => exact (congrArg abs (neg_sub_neg r r')).trans (abs_sub_comm r' r)

/-- What is finite has a sign and a magnitude. -/
theorem exists_eq_finite {x : Double} (h : x.isFinite = true) : ∃ negative m, x = .finite negative m := by
  cases x with
  | nan => exact nomatch h
  | infinite negative => exact nomatch h
  | finite negative m => exact ⟨negative, m, rfl⟩

/-- The sign and the magnitude of a number. -/
theorem exists_of_toRat? {x : Double} {v : ℚ} (h : x.toRat? = some v) :
    ∃ negative m, x = .finite negative m ∧ |v| = m.toRat ∧
      (m.index ≠ 0 → decide (v < 0) = negative) := by
  cases x with
  | nan => exact nomatch h
  | infinite negative => exact nomatch h
  | finite negative m =>
      obtain rfl := Option.some.inj h
      refine ⟨negative, m, rfl, abs_signed negative m.toRat_nonneg, fun hpos => ?_⟩
      cases negative with
      | false => exact decide_eq_false (not_lt.mpr m.toRat_nonneg)
      | true => exact decide_eq_true (neg_lt_zero.mpr (Magnitude.toRat_pos_iff.mpr hpos))

/-- The double nearest to a number that is not below zero, with the given sign. -/
def ofRat (negative : Bool) (q : ℚ) : Double :=
  round negative (q.num.natAbs * one) q.den

/-- A quotient is rounded as its number is. -/
theorem round_eq_ofRat (negative : Bool) (num : ℕ) {den : ℕ} (hden : 0 < den) :
    round negative (num * one) den = ofRat negative (num / den) := by
  have hpos : (den : ℚ) ≠ 0 := by exact_mod_cast hden.ne'
  generalize hq : (num / den : ℚ) = q
  have hnonneg : 0 ≤ q := hq ▸ div_nonneg (Nat.cast_nonneg num) (Nat.cast_nonneg den)
  have hnum : ((q.num.natAbs : ℕ) : ℚ) = q.num := by
    rw [← Int.cast_natCast, Int.natAbs_of_nonneg (Rat.num_nonneg.mpr hnonneg)]
  have hcross : num * q.den = q.num.natAbs * den := by
    have hvalue : (num : ℚ) * q.den = q.num.natAbs * den := by
      rw [hnum, ← div_eq_div_iff hpos (by exact_mod_cast q.den_nz), hq, Rat.num_div_den]
    exact_mod_cast hvalue
  refine round_congr negative hden q.den_pos ?_
  rw [Nat.mul_right_comm, hcross, Nat.mul_right_comm]

theorem ofNat_eq_ofRat (n : ℕ) : ofNat n = ofRat false n := by
  rw [ofNat, round_eq_ofRat false n Nat.one_pos, Nat.cast_one, div_one]

/-- The double nearest to the number of a magnitude is that magnitude. -/
theorem ofRat_toRat (negative : Bool) (m : Magnitude) : ofRat negative m.toRat = .finite negative m := by
  rw [Magnitude.toRat, ← round_eq_ofRat negative _ Magnitude.one_pos,
    round_units negative m Magnitude.one_pos]

theorem ofRat_zero (negative : Bool) : ofRat negative 0 = zero negative := by
  rw [← Magnitude.toRat_eq_zero (m := zeroMagnitude) rfl, ofRat_toRat, zero]

theorem neg_ofRat (negative : Bool) (q : ℚ) : -ofRat negative q = ofRat (!negative) q := by
  show negate (round _ _ _) = round _ _ _
  rw [round, round]
  split <;> rfl

theorem signed_ofRat (negative : Bool) (q : ℚ) :
    (if negative then -ofRat false q else ofRat false q) = ofRat negative q := by
  cases negative with
  | false => exact if_neg Bool.false_ne_true
  | true => exact (if_pos rfl).trans (neg_ofRat false q)

theorem ofInt_neg_eq_ofRat {n : ℕ} (h : n ≠ 0) : ofInt (-n) = ofRat true n := by
  have hneg : -(n : ℤ) < 0 := by omega
  rw [ofInt, decide_eq_true hneg, Int.natAbs_neg, Int.natAbs_natCast, round_eq_ofRat _ _ Nat.one_pos,
    Nat.cast_one, div_one]

/-- Whether a number is past the finite doubles does not depend on its sign. -/
theorem isFinite_ofRat (negative : Bool) (q : ℚ) :
    (ofRat negative q).isFinite = (ofRat false q).isFinite := by
  rw [ofRat, ofRat, round, round]
  split <;> rfl

/-- The product of finite doubles is rounded once. -/
theorem mul_finite (negative negative' : Bool) (m m' : Magnitude) :
    finite negative m * finite negative' m' = ofRat (negative != negative') (m.toRat * m'.toRat) := by
  have hone := Magnitude.one_pos
  show round (negative != negative') (units m.index * units m'.index) one = _
  rw [Magnitude.toRat, Magnitude.toRat, div_mul_div_comm, ← Nat.cast_mul, ← Nat.cast_mul,
    ← round_eq_ofRat _ _ (Nat.mul_pos hone hone)]
  refine round_congr _ hone (Nat.mul_pos hone hone) ?_
  ring

/-- So is their quotient. -/
theorem div_finite (negative negative' : Bool) (m : Magnitude) {m' : Magnitude} (h : m'.index ≠ 0) :
    finite negative m / finite negative' m' = ofRat (negative != negative') (m.toRat / m'.toRat) := by
  show (if m'.index = 0 then _ else round (negative != negative') (units m.index * one)
    (units m'.index)) = _
  rw [if_neg h, round_eq_ofRat _ _ (Magnitude.units_pos h), Magnitude.toRat, Magnitude.toRat,
    div_div_div_cancel_right₀ Magnitude.one_pos_rat.ne']

/-- Rounding to a whole number is exact. -/
theorem roundWhole_eq (negative : Bool) (m : Magnitude) :
    ∃ m' : Magnitude, roundWhole (.finite negative m) = .finite negative m' ∧
      units m'.index = Magnitude.wholeNear (units m.index) * one := by
  obtain ⟨j, hj⟩ := Magnitude.exists_units_eq_whole m.index
  -- the greatest magnitude is whole
  have hgreatest : units j ≤ units (Magnitude.count - 1) := by
    have hle := Magnitude.units_strictMono.monotone (Nat.le_sub_one_of_lt m.bounded)
    rw [Magnitude.units_greatest] at hle ⊢
    rw [hj, ← Magnitude.wholeNear_whole Magnitude.greatest]
    exact Nat.mul_le_mul_right one (Magnitude.wholeNear_mono hle)
  have hbound : j < Magnitude.count := by
    have := Magnitude.units_strictMono.le_iff_le.mp hgreatest
    have hcount : 0 < Magnitude.count := by decide
    omega
  refine ⟨⟨j, hbound⟩, ?_, hj⟩
  show round negative (Magnitude.wholeNear (units m.index) * one) 1 = _
  rw [← hj, ← Nat.mul_one (units j), round_units negative ⟨j, hbound⟩ Nat.one_pos]

end Double

end Abacus
