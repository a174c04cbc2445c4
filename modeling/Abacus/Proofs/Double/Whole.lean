import Abacus.Double.Arithmetic
import Abacus.Proofs.Double.Magnitude

/-!
# Whole numbers — which of them are doubles, and what rounding does to the others

A whole number of at most fifty-three bits is a double, and no other whole number rounds to it
(`nearest_whole_inj`).  A longer one is moved to a multiple of the gap between the doubles around it:
how far it strays is said by `stray` (`exists_nearest_whole`).  Dividing a whole number that has
strayed from a product by one of the factors gives the other factor back just when it has not strayed
too far (`nearest_quotient_eq_iff`).
-/

namespace Abacus.Magnitude

/-! ## Whole numbers of at most fifty-three bits -/

theorem units_nearest_whole {n : Nat} (h : n ≤ 2 * binade) :
    units (nearest (n * one) 1) = n * one := by
  obtain ⟨i, hi⟩ := exists_units_eq h unitPlaces
  rw [← one_eq] at hi
  rw [← hi, nearest_units_one]

/-- No two whole numbers are rounded to one that has at most fifty-three bits. -/
theorem nearest_whole_inj {n k : Nat} (hk : k < 2 * binade)
    (h : nearest (n * one) 1 = nearest (k * one) 1) : n = k := by
  have hone := one_pos
  have hself := units_nearest_whole (Nat.le_of_lt hk)
  obtain ⟨hlow, hhigh, -⟩ := (nearest_eq_iff Nat.one_pos).mp h
  rw [Nat.mul_one, hself] at hlow hhigh
  refine Nat.le_antisymm (Nat.le_of_not_lt fun hmore => ?_) (Nat.le_of_not_lt fun hless => ?_)
  · -- the next magnitude is at most the next whole number
    have hnext : units (nearest (k * one) 1 + 1) ≤ (k + 1) * one := by
      have hafter : nearest (k * one) 1 < nearest ((k + 1) * one) 1 := by
        rw [← units_strictMono.lt_iff_lt, hself, units_nearest_whole hk]
        exact Nat.mul_lt_mul_of_pos_right (Nat.lt_succ_self k) hone
      rw [← units_nearest_whole hk]
      exact units_strictMono.monotone hafter
    have hsum : 2 * (n * one) ≥ 2 * ((k + 1) * one) :=
      Nat.mul_le_mul_left 2 (Nat.mul_le_mul_right one hmore)
    rw [Nat.add_mul, Nat.one_mul] at hnext hsum
    omega
  · -- and the one before is at least the whole number before
    obtain ⟨before, rfl⟩ : ∃ before, k = before + 1 := ⟨k - 1, by omega⟩
    have hbefore : before * one ≤ units (nearest ((before + 1) * one) 1 - 1) := by
      have hearlier : nearest (before * one) 1 < nearest ((before + 1) * one) 1 := by
        rw [← units_strictMono.lt_iff_lt, hself, units_nearest_whole (by omega)]
        exact Nat.mul_lt_mul_of_pos_right (Nat.lt_succ_self before) hone
      rw [← units_nearest_whole (n := before) (by omega)]
      exact units_strictMono.monotone (by omega)
    have hsum : 2 * (n * one) ≤ 2 * (before * one) :=
      Nat.mul_le_mul_left 2 (Nat.mul_le_mul_right one (by omega))
    generalize nearest ((before + 1) * one) 1 = i at hlow hbefore
    rw [Nat.add_mul, Nat.one_mul] at hlow
    omega

/-- The greatest number that is a finite double. -/
def greatest : Nat :=
  (2 * binade - 1) * 2 ^ 971

/-- The greatest finite magnitude is whole. -/
theorem units_greatest : units (count - 1) = greatest * one := by
  rw [show count - 1 = 2045 * binade + (2 * binade - 1) from rfl,
    units_add (Nat.sub_le _ 1) (Or.inr (by decide)), greatest, one_eq, Nat.mul_assoc, ← Nat.pow_add,
    show 971 + unitPlaces = 2045 from rfl]

/-- Whole numbers of up to thirty digits are less than the greatest finite magnitude. -/
theorem whole_le_greatest {n : Nat} (h : n ≤ 10 ^ 30) : n * one ≤ units (count - 1) := by
  have hlong : 10 ^ 30 ≤ greatest := by decide +kernel
  rw [units_greatest]
  exact Nat.mul_le_mul_right one (Nat.le_trans h hlong)

/-! ## Longer whole numbers -/

/-- The distance of the doubles around a whole number. -/
def wholeGap (n : Nat) : Nat :=
  2 ^ (n.log2 - 52)

/-- How far a whole number is from the nearest double. -/
def stray (n : Nat) : Nat :=
  min (n % wholeGap n) (wholeGap n - n % wholeGap n)

theorem wholeGap_pos (n : Nat) : 0 < wholeGap n :=
  Nat.two_pow_pos _

/-- A whole number that is a multiple of the gap does not stray. -/
theorem stray_eq_zero_of_dvd {n : Nat} (h : wholeGap n ∣ n) : stray n = 0 := by
  rw [stray, Nat.mod_eq_zero_of_dvd h, Nat.zero_min]

theorem stray_of_short {n : Nat} (h : n < 2 * binade) : stray n = 0 := by
  have hlog : n.log2 - 52 = 0 := by
    rcases Nat.eq_zero_or_pos n with rfl | hpos
    · rfl
    · have hbinade := binade_eq
      have : n.log2 < 53 := (Nat.log2_lt hpos.ne').mpr (by omega)
      omega
  refine stray_eq_zero_of_dvd ?_
  rw [wholeGap, hlog]
  exact Nat.one_dvd n

/-- Fifty-three bits of a longer whole number are in front of the gap. -/
theorem div_wholeGap_bounds {n : Nat} (h : 2 * binade ≤ n) :
    binade ≤ n / wholeGap n ∧ n / wholeGap n < 2 * binade := by
  have hbinade := binade_eq
  have hpos : n ≠ 0 := by
    have := binade_pos
    omega
  have hlog : 53 ≤ n.log2 := (Nat.le_log2 hpos).mpr (by omega)
  rw [wholeGap, Nat.le_div_iff_mul_le (Nat.two_pow_pos _),
    Nat.div_lt_iff_lt_mul (Nat.two_pow_pos _), hbinade]
  constructor
  · rw [← Nat.pow_add, show 52 + (n.log2 - 52) = n.log2 by omega]
    exact Nat.log2_self_le hpos
  · calc n < 2 ^ (n.log2 + 1) := Nat.lt_log2_self
      _ = 2 * 2 ^ 52 * 2 ^ (n.log2 - 52) := by
        rw [show n.log2 + 1 = (n.log2 - 52) + 53 by omega, Nat.pow_add]
        ring

/-- **Whole numbers** are moved to the nearest multiple of the gap. -/
theorem exists_nearest_whole (n : Nat) :
    ∃ whole, units (nearest (n * one) 1) = whole * one ∧
      (whole + stray n = n ∨ whole = n + stray n) := by
  rcases Nat.lt_or_ge n (2 * binade) with hshort | hlong
  · refine ⟨n, units_nearest_whole (Nat.le_of_lt hshort), Or.inl ?_⟩
    rw [stray_of_short hshort, Nat.add_zero]
  · obtain ⟨hlow, hhigh⟩ := div_wholeGap_bounds hlong
    have hdiv := Nat.div_add_mod' n (wholeGap n)
    have hmod := Nat.mod_lt n (wholeGap_pos n)
    -- the neighbours are the multiples of the gap
    obtain ⟨i, hbelow, habove⟩ : ∃ i, units i = n / wholeGap n * wholeGap n * one ∧
        units (i + 1) = (n / wholeGap n * wholeGap n + wholeGap n) * one := by
      have hunit : 2 ^ (unitPlaces + (n.log2 - 52)) = wholeGap n * one := by
        rw [Nat.pow_add, ← one_eq, wholeGap, Nat.mul_comm]
      refine ⟨(unitPlaces + (n.log2 - 52)) * binade + n / wholeGap n, ?_, ?_⟩
      · rw [units_add (Nat.le_of_lt hhigh) (Or.inr hlow), hunit, Nat.mul_assoc]
      · rw [Nat.add_assoc, units_add hhigh (Or.inr (Nat.le_succ_of_le hlow)), hunit,
          Nat.succ_mul]
        ring
    generalize n / wholeGap n * wholeGap n = below at hdiv hbelow habove
    have hmiddle : (units i + units (i + 1)) * 1 = (2 * below + wholeGap n) * one := by
      rw [hbelow, habove]
      ring
    have hone := one_pos
    have hnearest := nearest_of_floor Nat.one_pos
      (show units i * 1 ≤ n * one by
        rw [hbelow, Nat.mul_one]
        exact Nat.mul_le_mul_right one (by omega))
      (show n * one < units (i + 1) * 1 by
        rw [habove, Nat.mul_one]
        exact Nat.mul_lt_mul_of_pos_right (by omega) hone)
    simp only [hmiddle, ← Nat.mul_assoc, Nat.mul_lt_mul_right hone] at hnearest
    rw [hnearest, stray]
    split
    · exact ⟨_, hbelow, Or.inl (by omega)⟩
    · split
      · exact ⟨_, habove, Or.inr (by omega)⟩
      · split
        · exact ⟨_, hbelow, Or.inl (by omega)⟩
        · exact ⟨_, habove, Or.inr (by omega)⟩

/-! ## A factor given back -/

/-- The magnitudes around a whole number are the last of its fifty-three bits away, the one below a
power of two apart. -/
theorem units_around_whole {k : Nat} (hk : 0 < k) (hshort : k < 2 * binade) :
    ∃ cut, one = 2 ^ (52 - k.log2) * 2 ^ cut ∧
      units (nearest (k * one) 1 + 1) = k * one + 2 ^ cut ∧
      (k ≠ 2 ^ k.log2 → units (nearest (k * one) 1 - 1) + 2 ^ cut = k * one) := by
  have hbinade := binade_eq
  have hlog : k.log2 < 53 := (Nat.log2_lt hk.ne').mpr (by omega)
  refine ⟨unitPlaces - (52 - k.log2), ?_, ?_⟩
  · rw [← Nat.pow_add, one_eq]
    congr 1
    rw [unitPlaces]
    omega
  · have hplaces : 52 - k.log2 + (unitPlaces - (52 - k.log2)) = unitPlaces := by
      rw [unitPlaces]
      omega
    generalize unitPlaces - (52 - k.log2) = cut at hplaces
    have hbits : 2 ^ k.log2 * 2 ^ (52 - k.log2) = binade := by
      rw [← Nat.pow_add, hbinade]
      congr 1
      omega
    have hlow : binade ≤ k * 2 ^ (52 - k.log2) := by
      rw [← hbits]
      exact Nat.mul_le_mul_right _ (Nat.log2_self_le hk.ne')
    have hhigh : k * 2 ^ (52 - k.log2) < 2 * binade := by
      calc k * 2 ^ (52 - k.log2) < 2 ^ (k.log2 + 1) * 2 ^ (52 - k.log2) :=
            Nat.mul_lt_mul_of_pos_right Nat.lt_log2_self (Nat.two_pow_pos _)
        _ = 2 * binade := by rw [← hbits, Nat.pow_succ]; ring
    have hone : k * 2 ^ (52 - k.log2) * 2 ^ cut = k * one := by
      rw [one_eq, ← hplaces, Nat.pow_add, Nat.mul_assoc]
    have hself := units_add hhigh.le (show cut = 0 ∨ _ from Or.inr hlow)
    rw [hone] at hself
    rw [← hself, nearest_units_one, hself]
    refine ⟨?_, fun hpower => ?_⟩
    · rw [Nat.add_assoc, units_add hhigh (Or.inr (Nat.le_succ_of_le hlow)), Nat.succ_mul, hone]
    · have hmore : binade < k * 2 ^ (52 - k.log2) := by
        rw [← hbits]
        exact Nat.mul_lt_mul_of_pos_right
          (Nat.lt_of_le_of_ne (Nat.log2_self_le hk.ne') hpower.symm) (Nat.two_pow_pos _)
      rw [← hone]
      generalize k * 2 ^ (52 - k.log2) = m at hmore hhigh
      obtain ⟨before, rfl⟩ : ∃ before, m = before + 1 := ⟨m - 1, by omega⟩
      rw [← Nat.add_assoc, Nat.add_sub_cancel, units_add (by omega) (Or.inr (by omega)), Nat.succ_mul]

/-- **A factor given back**: the quotient of a whole number near a product by one factor is the other
factor just if the whole number is not too far off. -/
theorem nearest_quotient_eq_iff {k factor whole off : Nat} (hk : 0 < k) (hshort : k < 2 * binade)
    (hfactor : 0 < factor) (htie : ¬ 2 ^ (53 - k.log2) ∣ factor)
    (hwhole : whole + off = factor * k ∨ whole = factor * k + off)
    (hpower : k = 2 ^ k.log2 → off = 0) :
    nearest (whole * one) factor = nearest (k * one) 1 ↔ off * 2 ^ 53 < factor * 2 ^ k.log2 := by
  have hbinade := binade_eq
  have hlog : k.log2 < 53 := (Nat.log2_lt hk.ne').mpr (by omega)
  have hself := units_nearest_whole hshort.le
  rcases Nat.eq_zero_or_pos off with rfl | hoff
  · have hexact : whole * one = units (nearest (k * one) 1) * factor := by
      rw [hself, show whole = factor * k by omega]
      ring
    rw [hexact, nearest_units _ hfactor, Nat.zero_mul]
    exact iff_of_true rfl (Nat.mul_pos hfactor (Nat.two_pow_pos _))
  · obtain ⟨cut, hone, habove, hbelow⟩ := units_around_whole hk hshort
    have hbelow := hbelow fun heq => hoff.ne' (hpower heq)
    rw [nearest_eq_iff hfactor, IsNearest, hself, habove]
    generalize units (nearest (k * one) 1 - 1) = below at hbelow
    -- both sides are counted in half the gap
    have hside : off * 2 ^ 53 < factor * 2 ^ k.log2 ↔ off * 2 ^ (53 - k.log2) < factor := by
      rw [show (2 : ℕ) ^ 53 = 2 ^ (53 - k.log2) * 2 ^ k.log2 by
          rw [← Nat.pow_add, Nat.sub_add_cancel hlog.le],
        ← Nat.mul_assoc, Nat.mul_lt_mul_right (Nat.two_pow_pos k.log2)]
    have hne : off * 2 ^ (53 - k.log2) ≠ factor := fun heq => htie ⟨off, by rw [← heq, Nat.mul_comm]⟩
    have hmoved : 2 * (off * one) = off * 2 ^ (53 - k.log2) * 2 ^ cut := by
      rw [hone, show 53 - k.log2 = (52 - k.log2) + 1 by omega, Nat.pow_succ]
      ring
    have hlower : (below + k * one) * factor + factor * 2 ^ cut = 2 * (factor * k * one) := by
      calc (below + k * one) * factor + factor * 2 ^ cut = (below + 2 ^ cut + k * one) * factor := by
            ring
        _ = 2 * (factor * k * one) := by
            rw [hbelow]
            ring
    have hupper : (k * one + (k * one + 2 ^ cut)) * factor =
        2 * (factor * k * one) + factor * 2 ^ cut := by ring
    have hpoint : 2 * (whole * one) + 2 * (off * one) = 2 * (factor * k * one) ∨
        2 * (whole * one) = 2 * (factor * k * one) + 2 * (off * one) := by
      rcases hwhole with hless | hmore
      · left
        rw [← hless]
        ring
      · right
        rw [hmore]
        ring
    rw [hside, hupper]
    rw [hmoved] at hpoint
    have hle : off * 2 ^ (53 - k.log2) * 2 ^ cut ≤ factor * 2 ^ cut ↔
        off * 2 ^ (53 - k.log2) < factor := by
      rw [Nat.mul_le_mul_right_iff (Nat.two_pow_pos cut)]
      omega
    have hlt : off * 2 ^ (53 - k.log2) * 2 ^ cut < factor * 2 ^ cut ↔
        off * 2 ^ (53 - k.log2) < factor := Nat.mul_lt_mul_right (Nat.two_pow_pos cut)
    have hcut : 0 < factor * 2 ^ cut := Nat.mul_pos hfactor (Nat.two_pow_pos cut)
    rw [← hlt]
    have hsame := hle.trans hlt.symm
    omega

end Abacus.Magnitude

namespace Abacus.Double

open Magnitude (units one)

/-! ## Arithmetic on whole numbers -/

/-- Equal quotients are rounded alike. -/
theorem round_congr (negative : Bool) {num den num' den' : Nat} (hden : 0 < den) (hden' : 0 < den')
    (h : num * den' = num' * den) : round negative num den = round negative num' den' := by
  rw [round, round, Magnitude.nearest_congr hden hden' h]

theorem round_units (negative : Bool) (m : Magnitude) {den : Nat} (hden : 0 < den) :
    round negative (units m.index * den) den = .finite negative m := by
  simp only [round, Magnitude.nearest_units m.index hden, dif_pos m.bounded]

/-- A quotient of up to thirty digits before the point is rounded to a finite double. -/
theorem round_eq_finite (negative : Bool) {n den : Nat} (hden : 0 < den) (h : n ≤ 10 ^ 30) :
    ∃ m : Magnitude, round negative (n * one) den = .finite negative m ∧
      m.index = Magnitude.nearest (n * one) den := by
  have hbound : Magnitude.nearest (n * one) den < Magnitude.count :=
    Magnitude.nearest_lt_count hden
      (Nat.le_trans (Magnitude.whole_le_greatest h) (Nat.le_mul_of_pos_right _ hden))
  exact ⟨⟨_, hbound⟩, dif_pos hbound, rfl⟩

variable {m m' : Magnitude} {a b : Nat}

/-- The product of whole numbers is rounded once. -/
theorem mul_whole (negative negative' : Bool) (h : units m.index = a * one)
    (h' : units m'.index = b * one) :
    finite negative m * finite negative' m' = round (negative != negative') (a * b * one) 1 := by
  show round (negative != negative') (units m.index * units m'.index) one = _
  refine round_congr _ Magnitude.one_pos Nat.one_pos ?_
  rw [h, h']
  ring

/-- Doubles of whole numbers are multiplied as these are. -/
theorem ofNat_mul_ofNat (ha : a ≤ 2 * Magnitude.binade) (hb : b ≤ 2 * Magnitude.binade) :
    ofNat a * ofNat b = ofNat (a * b) := by
  have hbound : 2 * Magnitude.binade ≤ 10 ^ 30 := by decide
  obtain ⟨m, hm, hindex⟩ := round_eq_finite false Nat.one_pos (Nat.le_trans ha hbound)
  obtain ⟨m', hm', hindex'⟩ := round_eq_finite false Nat.one_pos (Nat.le_trans hb hbound)
  rw [ofNat, ofNat, hm, hm', mul_whole false false (a := a) (b := b)
    (by rw [hindex, Magnitude.units_nearest_whole ha])
    (by rw [hindex', Magnitude.units_nearest_whole hb])]
  rfl

/-- A power is multiplied up without rounding as long as it is short. -/
theorem powNat_go_ofNat (n : Nat) (ha : 0 < a) (hb : 0 < b) (h : a * b ^ n ≤ 2 * Magnitude.binade) :
    powNat.go (ofNat b) n (ofNat a) = ofNat (a * b ^ n) := by
  induction n using Nat.strongRecOn generalizing a b with
  | ind n ih =>
      rw [powNat.go]
      split
      · next hzero => rw [hzero, Nat.pow_zero, Nat.mul_one]
      · next hzero =>
        have hsplit : b ^ n = (b * b) ^ (n / 2) * b ^ (n % 2) := by
          rw [← Nat.pow_two, ← Nat.pow_mul, ← Nat.pow_add, Nat.div_add_mod]
        have hfactor : a ≤ 2 * Magnitude.binade :=
          Nat.le_trans (Nat.le_mul_of_pos_right a (Nat.pow_pos hb)) h
        have hbase : b ≤ 2 * Magnitude.binade :=
          calc b ≤ b ^ n := Nat.le_self_pow hzero b
            _ ≤ a * b ^ n := Nat.le_mul_of_pos_left _ ha
            _ ≤ 2 * Magnitude.binade := h
        have hstep : (if n % 2 = 1 then mul (ofNat a) (ofNat b) else ofNat a) =
            ofNat (a * b ^ (n % 2)) := by
          rcases Nat.mod_two_eq_zero_or_one n with heven | hodd
          · rw [heven, if_neg (by decide), Nat.pow_zero, Nat.mul_one]
          · rw [hodd, if_pos rfl, Nat.pow_one]
            exact ofNat_mul_ofNat hfactor hbase
        rw [hstep]
        dsimp only
        split
        · next hhalf => rw [hsplit, hhalf, Nat.pow_zero, Nat.one_mul]
        · next hhalf =>
          have hsquare : b * b ≤ (b * b) ^ (n / 2) := Nat.le_self_pow hhalf _
          have hall : a * b ^ (n % 2) * (b * b) ^ (n / 2) = a * b ^ n := by
            rw [hsplit, Nat.mul_assoc, Nat.mul_comm (b ^ (n % 2))]
          rw [show mul (ofNat b) (ofNat b) = ofNat (b * b) from ofNat_mul_ofNat hbase hbase,
            ih (n / 2) (by omega) (Nat.mul_pos ha (Nat.pow_pos hb)) (Nat.mul_pos hb hb)
              (Nat.le_trans hall.le h), hall]

/-- A short power of a whole number is exact. -/
theorem powNat_ofNat {n : Nat} (hb : 0 < b) (h : b ^ n ≤ 2 * Magnitude.binade) :
    (ofNat b).powNat n = ofNat (b ^ n) := by
  rw [powNat, powNat_go_ofNat n Nat.one_pos hb (Nat.le_trans (Nat.one_mul _).le h), Nat.one_mul]

/-- The quotient of whole numbers is rounded once. -/
theorem div_whole (negative negative' : Bool) (h : units m.index = a * one)
    (h' : units m'.index = b * one) (hb : 0 < b) :
    finite negative m / finite negative' m' = round (negative != negative') (a * one) b := by
  have hpos : 0 < b * one := Nat.mul_pos hb Magnitude.one_pos
  have hindex : m'.index ≠ 0 := by
    intro hzero
    rw [hzero, Magnitude.units_zero] at h'
    omega
  show (if m'.index = 0 then _ else round (negative != negative') (units m.index * one)
    (units m'.index)) = _
  rw [if_neg hindex]
  refine round_congr _ (h' ▸ hpos) hb ?_
  rw [h, h']
  ring

end Abacus.Double
