import Mathlib.Order.Monotone.Basic
import Mathlib.Tactic.Linarith
import Mathlib.Tactic.Ring
import Abacus.Double.Rounding

/-!
# Magnitudes — what it means to be the nearest one

The magnitudes of one binade are multiples of its gap (`units_add`), and from one binade to the next
the gap doubles, so the magnitudes are strictly increasing (`units_strictMono`).  The rounding cuts a
quotient to fifty-three bits and so finds the two magnitudes around it (`exists_floor`).  From there
on nothing is said of bits: a magnitude is the nearest exactly when the quotient lies between the
two points half-way to its neighbours, which belong to the even one (`nearest_eq_iff`).
-/

namespace Abacus.Magnitude

/-! ## The magnitudes in their order -/

theorem binade_eq : binade = 2 ^ 52 := by norm_num [binade]

theorem binade_pos : 0 < binade := by decide

/-- How many binary places after the point the unit has. -/
def unitPlaces : Nat := 1074

theorem one_eq : one = 2 ^ unitPlaces := by
  show 1 <<< unitPlaces = 2 ^ unitPlaces
  rw [Nat.shiftLeft_eq, Nat.one_mul]

theorem one_pos : 0 < one := by
  rw [one_eq]
  exact Nat.two_pow_pos _

/-- The magnitudes of one binade, both of its ends included, are multiples of its gap. -/
theorem units_add {cut m : Nat} (hhigh : m ≤ 2 * binade) (hlow : cut = 0 ∨ binade ≤ m) :
    units (cut * binade + m) = m * 2 ^ cut := by
  have hpos := binade_pos
  rcases Nat.lt_or_ge m binade with hsmall | hlarge
  · obtain rfl : cut = 0 := hlow.resolve_right (Nat.not_le.mpr hsmall)
    rw [units, if_pos (by omega)]
    omega
  · have hbig : ¬ cut * binade + m < binade := by
      have := Nat.zero_le (cut * binade)
      omega
    rw [units, if_neg hbig, Nat.shiftLeft_eq]
    rcases Nat.lt_or_eq_of_le hhigh with hbelow | rfl
    · have hsplit : cut * binade + m = (m - binade) + (cut + 1) * binade := by
        rw [Nat.add_mul]
        omega
      have hrest : m - binade < binade := by omega
      rw [hsplit, Nat.add_mul_mod_self_right, Nat.add_mul_div_right _ _ hpos,
        Nat.mod_eq_of_lt hrest, Nat.div_eq_of_lt hrest, Nat.add_sub_cancel' hlarge,
        show 0 + (cut + 1) - 1 = cut by omega]
    · -- the upper end is the lower end of the next binade
      have hsplit : cut * binade + 2 * binade = 0 + (cut + 2) * binade := by ring
      rw [hsplit, Nat.add_mul_mod_self_right, Nat.add_mul_div_right _ _ hpos, Nat.zero_mod,
        Nat.zero_div, show 0 + (cut + 2) - 1 = cut + 1 by omega, Nat.pow_succ]
      ring

/-- Every magnitude is one of a binade, and its upper neighbour is one gap away. -/
theorem exists_gap (i : Nat) :
    ∃ cut m, m < 2 * binade ∧ (cut = 0 ∨ binade ≤ m) ∧ i = cut * binade + m := by
  have hpos := binade_pos
  rcases Nat.lt_or_ge i binade with hsmall | hlarge
  · exact ⟨0, i, by omega, Or.inl rfl, by omega⟩
  · have hdiv := Nat.div_add_mod' i binade
    have hmod := Nat.mod_lt i hpos
    have hone : 1 ≤ i / binade := (Nat.one_le_div_iff hpos).mpr hlarge
    refine ⟨i / binade - 1, binade + i % binade, by omega, Or.inr (by omega), ?_⟩
    rw [Nat.sub_mul]
    have : binade ≤ i / binade * binade := Nat.le_mul_of_pos_left _ hone
    omega

theorem units_strictMono : StrictMono units := by
  refine strictMono_nat_of_lt_succ fun i => ?_
  obtain ⟨cut, m, hhigh, hlow, rfl⟩ := exists_gap i
  rw [units_add (Nat.le_of_lt hhigh) hlow, Nat.add_assoc, units_add hhigh (by omega)]
  exact Nat.mul_lt_mul_of_pos_right (Nat.lt_succ_self m) (Nat.two_pow_pos cut)

theorem units_zero : units 0 = 0 := by decide

/-- A number of at most fifty-three bits with zeros after them is a magnitude. -/
theorem exists_units_eq {m : Nat} (h : m ≤ 2 * binade) (zeros : Nat) :
    ∃ i, units i = m * 2 ^ zeros := by
  induction zeros generalizing m with
  | zero => exact ⟨0 * binade + m, units_add h (Or.inl rfl)⟩
  | succ zeros ih =>
      rcases Nat.lt_or_ge m binade with hsmall | hlarge
      · obtain ⟨i, hi⟩ := ih (m := 2 * m) (by omega)
        exact ⟨i, by rw [hi, Nat.pow_succ]; ring⟩
      · exact ⟨(zeros + 1) * binade + m, units_add h (Or.inr hlarge)⟩

/-! ## The nearest magnitude -/

/-- The quotient lies between two neighbours, and its nearest magnitude is one of them: the nearer
one, or the even one half-way between the two. -/
theorem exists_floor (num : Nat) {den : Nat} (hden : 0 < den) :
    ∃ i, units i * den ≤ num ∧ num < units (i + 1) * den ∧
      nearest num den =
        if 2 * num < (units i + units (i + 1)) * den then i
        else if (units i + units (i + 1)) * den < 2 * num then i + 1
        else if i % 2 = 0 then i else i + 1 := by
  have hbinade := binade_eq
  rw [nearest, Nat.shiftLeft_eq]
  set cut := (num / den).log2 - 52 with hcut
  have hgap : 0 < den * 2 ^ cut := Nat.mul_pos hden (Nat.two_pow_pos cut)
  have hdiv := Nat.div_add_mod num (den * 2 ^ cut)
  have hmod := Nat.mod_lt num hgap
  have hshort : num / (den * 2 ^ cut) = num / den / 2 ^ cut := (Nat.div_div_eq_div_mul ..).symm
  -- after the cut fifty-three bits are left, and the first of them is one if anything was cut off
  have hhigh : num / (den * 2 ^ cut) < 2 * binade := by
    rw [hshort, Nat.div_lt_iff_lt_mul (Nat.two_pow_pos cut), hbinade]
    calc num / den < 2 ^ ((num / den).log2 + 1) := Nat.lt_log2_self
      _ ≤ 2 ^ (53 + cut) := Nat.pow_le_pow_right (by decide) (by omega)
      _ = 2 * 2 ^ 52 * 2 ^ cut := by ring
  have hlow : cut = 0 ∨ binade ≤ num / (den * 2 ^ cut) := by
    rcases Nat.eq_zero_or_pos cut with hzero | hpos
    · exact Or.inl hzero
    · refine Or.inr ?_
      have hsome : num / den ≠ 0 := by
        intro hnone
        rw [hnone] at hcut
        simp at hcut
        omega
      rw [hshort, Nat.le_div_iff_mul_le (Nat.two_pow_pos cut), hbinade, ← Nat.pow_add]
      calc 2 ^ (52 + cut) = 2 ^ (num / den).log2 := by congr 1; omega
        _ ≤ num / den := Nat.log2_self_le hsome
  have hbelow := units_add (Nat.le_of_lt hhigh) hlow
  have habove : units (cut * binade + num / (den * 2 ^ cut) + 1) =
      (num / (den * 2 ^ cut) + 1) * 2 ^ cut := by
    rw [Nat.add_assoc]
    exact units_add hhigh (by omega)
  generalize num / (den * 2 ^ cut) = m at *
  generalize num % (den * 2 ^ cut) = beyond at *
  refine ⟨cut * binade + m, ?_, ?_, ?_⟩
  · rw [hbelow]
    calc m * 2 ^ cut * den = den * 2 ^ cut * m := by ring
      _ ≤ num := by omega
  · rw [habove]
    calc num < den * 2 ^ cut * m + den * 2 ^ cut := by omega
      _ = (m + 1) * 2 ^ cut * den := by ring
  · have hmiddle : (units (cut * binade + m) + units (cut * binade + m + 1)) * den =
        2 * (den * 2 ^ cut * m) + den * 2 ^ cut := by
      rw [hbelow, habove]
      ring
    rw [hmiddle]
    have hless : 2 * num < 2 * (den * 2 ^ cut * m) + den * 2 ^ cut ↔
        2 * beyond < den * 2 ^ cut := by omega
    have hmore : 2 * (den * 2 ^ cut * m) + den * 2 ^ cut < 2 * num ↔
        den * 2 ^ cut < 2 * beyond := by omega
    simp only [hless, hmore]

/-- The quotient is nearest to the magnitude: it lies between the two points half-way to the
neighbours, and it is one of these only if the magnitude is even. -/
def IsNearest (num den i : Nat) : Prop :=
  (units (i - 1) + units i) * den ≤ 2 * num ∧ 2 * num ≤ (units i + units (i + 1)) * den ∧
    (i % 2 = 1 → (units (i - 1) + units i) * den < 2 * num ∧
      2 * num < (units i + units (i + 1)) * den)

theorem isNearest_nearest (num : Nat) {den : Nat} (hden : 0 < den) :
    IsNearest num den (nearest num den) := by
  obtain ⟨i, hle, hlt, hnearest⟩ := exists_floor num hden
  have hup : units i * den < units (i + 1) * den :=
    Nat.mul_lt_mul_of_pos_right (units_strictMono (Nat.lt_succ_self i)) hden
  have hupper : units (i + 1) * den < units (i + 1 + 1) * den :=
    Nat.mul_lt_mul_of_pos_right (units_strictMono (Nat.lt_succ_self (i + 1))) hden
  have hdown : units (i - 1) * den ≤ units i * den :=
    Nat.mul_le_mul_right den (units_strictMono.monotone (Nat.sub_le i 1))
  have hdown' : i % 2 = 1 → units (i - 1) * den < units i * den := fun hodd =>
    Nat.mul_lt_mul_of_pos_right (units_strictMono (by omega)) hden
  rw [hnearest]
  simp only [IsNearest, Nat.add_mul] at *
  split
  · exact ⟨by omega, by omega, fun hodd => ⟨by have := hdown' hodd; omega, by omega⟩⟩
  · split
    · rw [Nat.add_sub_cancel]
      exact ⟨by omega, by omega, fun _ => ⟨by omega, by omega⟩⟩
    · split
      · exact ⟨by omega, by omega, fun hodd => by omega⟩
      · rw [Nat.add_sub_cancel]
        exact ⟨by omega, by omega, fun hodd => by omega⟩

/-- The greater of two quotients is not nearest to a lesser magnitude. -/
theorem IsNearest.le {num den num' den' i i' : Nat} (h : IsNearest num den i)
    (h' : IsNearest num' den' i') (hden : 0 < den) (hden' : 0 < den')
    (hle : num * den' ≤ num' * den) : i ≤ i' := by
  refine Nat.le_of_not_lt fun hlt => ?_
  obtain ⟨hlow, -, hodd⟩ := h
  obtain ⟨-, hhigh, hodd'⟩ := h'
  -- the two intervals have at most one point in common, and it belongs to the even magnitude
  have hneighbours : units i' + units (i' + 1) ≤ units (i - 1) + units i :=
    Nat.add_le_add (units_strictMono.monotone (by omega)) (units_strictMono.monotone (by omega))
  have hmiddle : (units i' + units (i' + 1)) * (den * den') ≤
      (units (i - 1) + units i) * (den * den') := Nat.mul_le_mul_right _ hneighbours
  have hfirst : (units (i - 1) + units i) * (den * den') ≤ 2 * (num * den') := by
    calc (units (i - 1) + units i) * (den * den') = (units (i - 1) + units i) * den * den' := by ring
      _ ≤ 2 * num * den' := Nat.mul_le_mul_right _ hlow
      _ = 2 * (num * den') := by ring
  have hsecond : 2 * (num' * den) ≤ (units i' + units (i' + 1)) * (den * den') := by
    calc 2 * (num' * den) = 2 * num' * den := by ring
      _ ≤ (units i' + units (i' + 1)) * den' * den := Nat.mul_le_mul_right _ hhigh
      _ = (units i' + units (i' + 1)) * (den * den') := by ring
  rcases Nat.lt_or_ge (i' + 1) i with hapart | hnext
  · have hstrict : units i' + units (i' + 1) < units (i - 1) + units i :=
      Nat.add_lt_add (units_strictMono (by omega)) (units_strictMono (by omega))
    have := Nat.mul_lt_mul_of_pos_right hstrict (Nat.mul_pos hden hden')
    omega
  · rcases Nat.mod_two_eq_zero_or_one i with heven | hone
    · have hstrict := (hodd' (by omega)).2
      have := Nat.mul_lt_mul_of_pos_right hstrict hden
      have hsame : (units i' + units (i' + 1)) * den' * den =
        (units i' + units (i' + 1)) * (den * den') := by ring
      rw [hsame, Nat.mul_assoc] at this
      omega
    · have hstrict := (hodd hone).1
      have := Nat.mul_lt_mul_of_pos_right hstrict hden'
      have hsame : (units (i - 1) + units i) * den * den' =
        (units (i - 1) + units i) * (den * den') := by ring
      rw [hsame, Nat.mul_assoc] at this
      omega

/-- **The nearest magnitude** is the one that the quotient is nearest to, and there is no other. -/
theorem nearest_eq_iff {num den i : Nat} (hden : 0 < den) :
    nearest num den = i ↔ IsNearest num den i := by
  have hself := isNearest_nearest num hden
  constructor
  · rintro rfl
    exact hself
  · intro h
    exact Nat.le_antisymm (hself.le h hden hden (Nat.le_refl _))
      (h.le hself hden hden (Nat.le_refl _))

/-- Rounding keeps the order. -/
theorem nearest_mono {num den num' den' : Nat} (hden : 0 < den) (hden' : 0 < den')
    (h : num * den' ≤ num' * den) : nearest num den ≤ nearest num' den' :=
  (isNearest_nearest num hden).le (isNearest_nearest num' hden') hden hden' h

/-- Equal quotients are rounded alike. -/
theorem nearest_congr {num den num' den' : Nat} (hden : 0 < den) (hden' : 0 < den')
    (h : num * den' = num' * den) : nearest num den = nearest num' den' :=
  Nat.le_antisymm (nearest_mono hden hden' (Nat.le_of_eq h))
    (nearest_mono hden' hden (Nat.le_of_eq h.symm))

/-- A quotient that is a magnitude stays what it is. -/
theorem nearest_units (i : Nat) {den : Nat} (hden : 0 < den) :
    nearest (units i * den) den = i := by
  rw [nearest_eq_iff hden, IsNearest]
  have hup : units i * den < units (i + 1) * den :=
    Nat.mul_lt_mul_of_pos_right (units_strictMono (Nat.lt_succ_self i)) hden
  have hdown : units (i - 1) * den ≤ units i * den :=
    Nat.mul_le_mul_right den (units_strictMono.monotone (Nat.sub_le i 1))
  have hdown' : i % 2 = 1 → units (i - 1) * den < units i * den := fun hodd =>
    Nat.mul_lt_mul_of_pos_right (units_strictMono (by omega)) hden
  simp only [Nat.add_mul]
  exact ⟨by omega, by omega, fun hodd => ⟨by have := hdown' hodd; omega, by omega⟩⟩

/-- What does not exceed the greatest finite magnitude is rounded to a finite one. -/
theorem nearest_lt_count {num den : Nat} (hden : 0 < den) (h : num ≤ units (count - 1) * den) :
    nearest num den < count := by
  have hle : nearest num den ≤ nearest (units (count - 1) * den) den :=
    nearest_mono hden hden (Nat.mul_le_mul_right den h)
  rw [nearest_units (count - 1) hden] at hle
  have hcount : 0 < count := by decide
  omega

/-- A magnitude is nearest to itself. -/
theorem nearest_units_one (i : Nat) : nearest (units i) 1 = i := by
  have h := nearest_units i Nat.one_pos
  rwa [Nat.mul_one] at h

/-- The lower neighbour of a quotient tells its nearest magnitude. -/
theorem nearest_of_floor {num den i : Nat} (hden : 0 < den) (hlow : units i * den ≤ num)
    (hhigh : num < units (i + 1) * den) :
    nearest num den =
      if 2 * num < (units i + units (i + 1)) * den then i
      else if (units i + units (i + 1)) * den < 2 * num then i + 1
      else if i % 2 = 0 then i else i + 1 := by
  obtain ⟨j, hlow', hhigh', hnearest⟩ := exists_floor num hden
  have hij : i < j + 1 := units_strictMono.lt_iff_lt.mp
    (Nat.lt_of_mul_lt_mul_right (Nat.lt_of_le_of_lt hlow hhigh'))
  have hji : j < i + 1 := units_strictMono.lt_iff_lt.mp
    (Nat.lt_of_mul_lt_mul_right (Nat.lt_of_le_of_lt hlow' hhigh))
  obtain rfl : i = j := by omega
  exact hnearest

end Abacus.Magnitude
