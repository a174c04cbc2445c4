import Abacus.Proofs.Decimal.Value
import Abacus.Proofs.Double.Whole

/-!
# Shortest digits — the search finds a decimal that reads back

The interval of a magnitude holds just the decimals that round to it (`holds_iff`), a neighbour that
the search takes lies in the interval, and on the grid of seventeen digits one always does, since its
step is less than the gap below the magnitude.  So the shortest decimal of a magnitude rounds to that
magnitude (`nearest_shortest`), and it does not end in a lower place than another decimal that does
(`le_exponent_shortest`): that of a whole number has no fraction.
-/

namespace Abacus.Decimal

open Magnitude (units one nearest IsNearest units_strictMono)

/-- The decimal rounds to the magnitude with this number. -/
def RoundsTo (d : Decimal) (index : ℕ) : Prop :=
  nearest (d.quotient.1 * one) d.quotient.2 = index

/-- A decimal without a fraction rounds as the whole number does. -/
theorem roundsTo_natCast_iff {digits places index : ℕ} :
    RoundsTo ⟨digits, places⟩ index ↔ nearest (digits * 10 ^ places * one) 1 = index := by
  rw [RoundsTo, quotient_natCast]

/-- A decimal that rounds to a magnitude is read as it. -/
theorem RoundsTo.round_eq {d : Decimal} {m : Magnitude} (h : RoundsTo d m.index) (negative : Bool) :
    Double.round negative (d.quotient.1 * one) d.quotient.2 = .finite negative m := by
  simp only [Double.round, show nearest _ _ = m.index from h, dif_pos m.bounded]

/-- Decimals of the same value round alike. -/
theorem RoundsTo.congr {d d' : Decimal} {index : ℕ} (h : RoundsTo d index)
    (hvalue : d'.toRat = d.toRat) : RoundsTo d' index := by
  refine Eq.trans ?_ h
  refine Magnitude.nearest_congr (quotient_pos d') (quotient_pos d) ?_
  have hpos : (d.quotient.2 : ℚ) ≠ 0 := by exact_mod_cast (quotient_pos d).ne'
  have hpos' : (d'.quotient.2 : ℚ) ≠ 0 := by exact_mod_cast (quotient_pos d').ne'
  have hcross : d'.quotient.1 * d.quotient.2 = d.quotient.1 * d'.quotient.2 := by
    have : (d'.quotient.1 : ℚ) / d'.quotient.2 = d.quotient.1 / d.quotient.2 := by
      rw [quotient_eq, quotient_eq, hvalue]
    rw [div_eq_div_iff hpos' hpos] at this
    exact_mod_cast this
  calc d'.quotient.1 * one * d.quotient.2 = d'.quotient.1 * d.quotient.2 * one := by ring
    _ = d.quotient.1 * one * d'.quotient.2 := by rw [hcross]; ring

/-- Of two decimals the lesser one rounds to the lesser magnitude. -/
theorem RoundsTo.index_le {d d' : Decimal} {index index' : ℕ} (h : RoundsTo d index)
    (h' : RoundsTo d' index') (hle : d.toRat ≤ d'.toRat) : index ≤ index' := by
  have hpos : (0 : ℚ) < d.quotient.2 := by exact_mod_cast quotient_pos d
  have hpos' : (0 : ℚ) < d'.quotient.2 := by exact_mod_cast quotient_pos d'
  rw [← quotient_eq, ← quotient_eq, div_le_div_iff₀ hpos hpos'] at hle
  have hcross : d.quotient.1 * d'.quotient.2 ≤ d'.quotient.1 * d.quotient.2 := by exact_mod_cast hle
  rw [← show nearest _ _ = index from h, ← show nearest _ _ = index' from h']
  refine Magnitude.nearest_mono (quotient_pos d) (quotient_pos d') ?_
  rw [Nat.mul_right_comm, Nat.mul_right_comm _ one]
  exact Nat.mul_le_mul_right one hcross

/-! ## The interval of a magnitude -/

/-- A point lies between two others, and on one of them only if the ends belong to the interval. -/
theorem between_iff {index low high point : ℕ} :
    (if index % 2 == 0 then decide (low ≤ point) && decide (point ≤ high)
      else decide (low < point) && decide (point < high)) = true ↔
      low ≤ point ∧ point ≤ high ∧ (index % 2 = 1 → low < point ∧ point < high) := by
  rcases Nat.mod_two_eq_zero_or_one index with heven | hodd
  · simp [heven]
  · simp only [hodd, Nat.reduceBEq, Bool.false_eq_true, if_false, Bool.and_eq_true, decide_eq_true_eq]
    constructor
    · rintro ⟨hlow, hhigh⟩
      exact ⟨hlow.le, hhigh.le, fun _ => ⟨hlow, hhigh⟩⟩
    · rintro ⟨-, -, hinside⟩
      exact hinside trivial

/-- **The interval of a magnitude** holds the decimals that round to it. -/
theorem holds_iff {index steps : ℕ} {place : ℤ} :
    (Interval.around index).holds steps place = true ↔ RoundsTo ⟨steps, place⟩ index := by
  rw [RoundsTo, Magnitude.nearest_eq_iff (quotient_pos _), IsNearest]
  simp only [Interval.holds, Interval.around, inSteps, quotient]
  rcases le_or_gt 0 place with hnonneg | hneg
  · have hpoint (n : ℕ) : 2 * (steps * 10 ^ n * one) = steps * (2 * one * 10 ^ n) := by ring
    simp only [if_pos hnonneg, Nat.mul_one, Nat.pow_eq, hpoint]
    exact between_iff
  · have hpoint : 2 * (steps * one) = steps * (2 * one) := by ring
    simp only [if_neg (not_le.mpr hneg), Nat.pow_eq, hpoint]
    exact between_iff

/-! ## The neighbours on a grid -/

/-- A neighbour that is taken lies in the interval. -/
theorem holds_of_onGrid {i : Interval} {tie : Tie} {place : ℤ} {steps : ℕ}
    (h : i.onGrid tie place = some steps) : i.holds steps place = true := by
  simp only [Interval.onGrid] at h
  split at h
  · cases h
  · next hbelow _ => cases h; exact hbelow
  · next _ habove => cases h; exact habove
  · next hbelow habove =>
    split at h
    · cases h; exact hbelow
    · split at h
      · cases h; exact habove
      · cases tie with
        | up => cases h; exact habove
        | even =>
            dsimp only at h
            split at h
            · cases h; exact hbelow
            · cases h; exact habove

/-- If one of the two neighbours lies in the interval, one is taken. -/
theorem onGrid_ne_none {i : Interval} (tie : Tie) {place : ℤ}
    (h : i.holds ((inSteps i.value (2 * one) place).1 / (inSteps i.value (2 * one) place).2) place
        = true ∨
      i.holds ((inSteps i.value (2 * one) place).1 / (inSteps i.value (2 * one) place).2 + 1) place
        = true) : i.onGrid tie place ≠ none := by
  simp only [Interval.onGrid]
  split
  · next hbelow habove =>
    rw [hbelow, habove] at h
    simp at h
  · exact Option.some_ne_none _
  · exact Option.some_ne_none _
  · split
    · exact Option.some_ne_none _
    · split
      · exact Option.some_ne_none _
      · cases tie with
        | up => exact Option.some_ne_none _
        | even => dsimp only; split <;> exact Option.some_ne_none _

/-- If any point of the grid lies in the interval, one of the two neighbours does. -/
theorem onGrid_ne_none_of_holds {index steps : ℕ} (tie : Tie) {place : ℤ}
    (h : (Interval.around index).holds steps place = true) :
    (Interval.around index).onGrid tie place ≠ none := by
  have hone : 0 < 2 * one := Nat.mul_pos Nat.two_pos Magnitude.one_pos
  obtain ⟨scale, step, hscale, hpos, hsteps⟩ := exists_inSteps_eq hone place
  refine onGrid_ne_none tie ?_
  simp only [Interval.holds, Interval.around, hsteps, between_iff] at h ⊢
  obtain ⟨hlow, hhigh, hodd⟩ := h
  -- the magnitude itself lies in the interval
  have hbelow : (units (index - 1) + units index) * scale ≤ 2 * units index * scale :=
    Nat.mul_le_mul_right scale (by have := units_strictMono.monotone (Nat.sub_le index 1); omega)
  have habove : 2 * units index * scale < (units index + units (index + 1)) * scale :=
    Nat.mul_lt_mul_of_pos_right (by have := units_strictMono (show index < index + 1 by omega); omega) hscale
  have hdiv := Nat.div_add_mod' (2 * units index * scale) step
  have hmod := Nat.mod_lt (2 * units index * scale) hpos
  have hnext : (2 * units index * scale / step + 1) * step =
      2 * units index * scale / step * step + step := Nat.succ_mul _ _
  rw [hnext]
  rcases Nat.lt_or_ge (2 * units index * scale / step) steps with hmore | hless
  · have hpoint : (2 * units index * scale / step + 1) * step ≤ steps * step :=
      Nat.mul_le_mul_right step hmore
    exact Or.inr ⟨by omega, by omega, fun hindex => by have := hodd hindex; omega⟩
  · have hpoint : steps * step ≤ 2 * units index * scale / step * step :=
      Nat.mul_le_mul_right step hless
    exact Or.inl ⟨by omega, by omega, fun hindex => by have := hodd hindex; omega⟩

/-- A grid whose step is less than the gap below the magnitude has a point in the interval. -/
theorem onGrid_ne_none_of_gap {index : ℕ} (tie : Tie) {place : ℤ} {scale step : ℕ}
    (hsteps : ∀ num, inSteps num (2 * one) place = (num * scale, step)) (hpos : 0 < step)
    (hgap : step < 2 * ((units index - units (index - 1)) * scale))
    (hupper : units index - units (index - 1) ≤ units (index + 1) - units index) :
    (Interval.around index).onGrid tie place ≠ none := by
  refine onGrid_ne_none tie ?_
  have hrise : units (index - 1) ≤ units index := units_strictMono.monotone (Nat.sub_le index 1)
  have hnext : units index < units (index + 1) := units_strictMono (Nat.lt_succ_self index)
  simp only [Interval.holds, Interval.around, hsteps]
  obtain ⟨lower, hlower⟩ : ∃ lower, units index = units (index - 1) + lower :=
    ⟨_, (Nat.add_sub_cancel' hrise).symm⟩
  obtain ⟨upper, hupper'⟩ : ∃ upper, units (index + 1) = units index + upper :=
    ⟨_, (Nat.add_sub_cancel' hnext.le).symm⟩
  have hle : lower * scale ≤ upper * scale := Nat.mul_le_mul_right _ (by omega)
  have hmiddle : 2 * units index * scale =
      (units (index - 1) + units index) * scale + lower * scale := by
    rw [hlower]
    ring
  have hend : (units index + units (index + 1)) * scale =
      2 * units index * scale + upper * scale := by
    rw [hupper']
    ring
  rw [show units index - units (index - 1) = lower by omega] at hgap
  have hdiv := Nat.div_add_mod' (2 * units index * scale) step
  have hmod := Nat.mod_lt (2 * units index * scale) hpos
  have habove : (2 * units index * scale / step + 1) * step =
      2 * units index * scale / step * step + step := by ring
  rw [habove, hend]
  generalize 2 * units index * scale / step * step = below at *
  generalize (units (index - 1) + units index) * scale = low at *
  -- the point below is in the interval, or it is so far away that the one above is
  rcases Nat.lt_or_ge low below with hin | hout
  · left
    split <;> simp <;> omega
  · right
    split <;> simp <;> omega

/-! ## Seventeen digits -/

/-- The gap below a magnitude is not wider than the one above, and not less than the magnitude's
last of fifty-three bits. -/
theorem gap_bounds {index : ℕ} (h : 0 < index) :
    units index - units (index - 1) ≤ units (index + 1) - units index ∧
      units index ≤ 2 * Magnitude.binade * (units index - units (index - 1)) := by
  obtain ⟨below, rfl⟩ : ∃ below, index = below + 1 := ⟨index - 1, by omega⟩
  obtain ⟨cut, m, hhigh, hlow, rfl⟩ := Magnitude.exists_gap below
  have hself : units (cut * Magnitude.binade + m) = m * 2 ^ cut :=
    Magnitude.units_add (Nat.le_of_lt hhigh) hlow
  have hnext : units (cut * Magnitude.binade + m + 1) = (m + 1) * 2 ^ cut := by
    rw [Nat.add_assoc]
    exact Magnitude.units_add hhigh (by omega)
  have hpos : 0 < 2 ^ cut := Nat.two_pow_pos cut
  have hgap : units (cut * Magnitude.binade + m + 1) - units (cut * Magnitude.binade + m) = 2 ^ cut := by
    rw [hself, hnext, Nat.add_mul]
    omega
  rw [Nat.add_sub_cancel, hgap]
  refine ⟨?_, ?_⟩
  · -- the next magnitude is in the same binade, or begins one with twice the gap
    rcases Nat.lt_or_ge (m + 1) (2 * Magnitude.binade) with hsame | hend
    · have habove : units (cut * Magnitude.binade + m + 1 + 1) = (m + 2) * 2 ^ cut := by
        rw [Nat.add_assoc, Nat.add_assoc]
        exact Magnitude.units_add hsame (by omega)
      rw [habove, hnext, Nat.add_mul, Nat.add_mul]
      omega
    · have hm : m + 1 = 2 * Magnitude.binade := by omega
      have hindex : cut * Magnitude.binade + m + 1 + 1 =
          (cut + 1) * Magnitude.binade + (Magnitude.binade + 1) := by
        rw [Nat.add_mul]
        omega
      have habove : units (cut * Magnitude.binade + m + 1 + 1) =
          (Magnitude.binade + 1) * 2 ^ (cut + 1) := by
        rw [hindex]
        exact Magnitude.units_add (by have := Magnitude.binade_pos; omega) (Or.inr (Nat.le_succ _))
      rw [habove, hnext, hm, Nat.pow_succ]
      have : (Magnitude.binade + 1) * (2 ^ cut * 2) =
          2 * Magnitude.binade * 2 ^ cut + 2 * 2 ^ cut := by ring
      omega
  · rw [hnext]
    exact Nat.mul_le_mul_right _ hhigh

/-- On the grid of seventeen digits the interval has a point. -/
theorem onGrid_seventeen {index : ℕ} (h : 0 < index) (tie : Tie) :
    (Interval.around index).onGrid tie (leadingPlace (2 * units index) (2 * one) - 16) ≠ none := by
  have hone : 0 < 2 * one := Nat.mul_pos Nat.two_pos Magnitude.one_pos
  have hunits : 0 < 2 * units index := by
    have := units_strictMono h
    rw [Magnitude.units_zero] at this
    omega
  generalize hplace : leadingPlace (2 * units index) (2 * one) - 16 = place
  obtain ⟨scale, step, -, hpos, hsteps⟩ := exists_inSteps_eq hone place
  obtain ⟨hupper, hbits⟩ := gap_bounds h
  refine onGrid_ne_none_of_gap tie hsteps hpos ?_ hupper
  -- the magnitude is more than ten to the sixteenth steps
  have hmany : 10 ^ 16 * step ≤ 2 * units index * scale := by
    have hlead := pow_leadingPlace_le hunits hone
    have hcount := inSteps_eq (2 * units index) (2 * one) place
    rw [hsteps] at hcount
    have hstep : (0 : ℚ) < step := by exact_mod_cast hpos
    have hten : (0 : ℚ) < (10 : ℚ) ^ place := zpow_pos (by norm_num) place
    have hsplit : (10 : ℚ) ^ leadingPlace (2 * units index) (2 * one) = 10 ^ 16 * (10 : ℚ) ^ place := by
      rw [← hplace, zpow_sub₀ (by norm_num)]
      norm_num
      ring
    rw [hsplit, ← le_div_iff₀ hten, ← hcount, le_div_iff₀ hstep] at hlead
    exact_mod_cast hlead
  have hwide : 2 * units index * scale ≤
      2 * Magnitude.binade * (2 * ((units index - units (index - 1)) * scale)) := by
    calc 2 * units index * scale = units index * (2 * scale) := by ring
      _ ≤ 2 * Magnitude.binade * (units index - units (index - 1)) * (2 * scale) :=
        Nat.mul_le_mul_right _ hbits
      _ = 2 * Magnitude.binade * (2 * ((units index - units (index - 1)) * scale)) := by ring
  rw [show Magnitude.binade = 4503599627370496 from rfl] at hwide
  omega

/-! ## The search -/

/-- A search that passes a grid with a point in the interval ends there or before, with a point in
the interval. -/
theorem search_spec {i : Interval} {tie : Tie} {place : ℤ} {grids passed : ℕ}
    (hpassed : passed ≤ grids) (h : i.onGrid tie (place - passed) ≠ none) :
    i.holds (i.search tie place grids).digits (i.search tie place grids).exponent = true ∧
      place - passed ≤ (i.search tie place grids).exponent := by
  induction grids generalizing place passed with
  | zero =>
      obtain rfl : passed = 0 := Nat.le_zero.mp hpassed
      obtain ⟨steps, hsteps⟩ := Option.ne_none_iff_exists'.mp h
      rw [Int.natCast_zero, Int.sub_zero] at hsteps ⊢
      simp only [Interval.search, hsteps, Option.getD_some]
      exact ⟨holds_of_onGrid hsteps, Int.le_refl _⟩
  | succ grids ih =>
      rw [Interval.search]
      split
      · next steps hsteps => exact ⟨holds_of_onGrid hsteps, Int.sub_le_self _ (by omega)⟩
      · next hnone =>
        obtain ⟨before, rfl⟩ : ∃ before, passed = before + 1 := by
          refine Nat.exists_eq_add_one_of_ne_zero ?_
          rintro rfl
          rw [Int.natCast_zero, Int.sub_zero] at h
          exact h hnone
        have hplace : place - (before + 1 : ℕ) = place - 1 - before := by push_cast; ring
        rw [hplace] at h ⊢
        exact ih (by omega) h

theorem shortest_of_index_eq_zero (tie : Tie) {m : Magnitude} (h : m.index = 0) :
    shortest tie m = ⟨0, 0⟩ := by
  rw [shortest, if_pos h]

theorem shortest_of_pos {tie : Tie} {m : Magnitude} (h : 0 < m.index) :
    shortest tie m = ((Interval.around m.index).search tie
      (leadingPlace (2 * units m.index) (2 * one)) 16).stripped := by
  simp only [shortest, if_neg h.ne', Interval.around]

/-- **The shortest decimal** of a magnitude rounds to that magnitude. -/
theorem nearest_shortest (tie : Tie) (m : Magnitude) : RoundsTo (shortest tie m) m.index := by
  rcases Nat.eq_zero_or_pos m.index with hzero | hpos
  · rw [shortest_of_index_eq_zero tie hzero, hzero]
    refine roundsTo_natCast_iff.mpr ?_
    rw [Nat.zero_mul, Nat.zero_mul]
    exact Magnitude.nearest_one_of_lt (by have := Magnitude.binade_pos; omega)
  · rw [shortest_of_pos hpos]
    have hfound := search_spec (Nat.le_refl 16) (onGrid_seventeen hpos tie)
    exact (holds_iff.mp hfound.1).congr (toRat_stripped _).1

/-- Shortest decimals are in the order of their magnitudes. -/
theorem toRat_shortest_le (tie : Tie) {m m' : Magnitude} (h : m.index ≤ m'.index) :
    (shortest tie m).toRat ≤ (shortest tie m').toRat := by
  rcases Nat.lt_or_eq_of_le h with hless | heq
  · refine le_of_not_ge fun hge => ?_
    exact absurd hless (Nat.not_lt.mpr ((nearest_shortest tie m').index_le (nearest_shortest tie m) hge))
  · rw [show m = m' by cases m; cases m'; simp_all]

/-- If a decimal rounds to the magnitude, the shortest one does not end in a lower place. -/
theorem le_exponent_shortest (tie : Tie) {m : Magnitude} {steps : ℕ} {place : ℤ} (hpos : 0 < m.index)
    (hplace : place ≤ leadingPlace (2 * units m.index) (2 * one))
    (h : RoundsTo ⟨steps, place⟩ m.index) : place ≤ (shortest tie m).exponent := by
  rw [shortest_of_pos hpos]
  obtain ⟨passed, hpassed⟩ := Int.eq_ofNat_of_zero_le (Int.sub_nonneg_of_le hplace)
  -- the grid of seventeen digits ends the search if the decimal has more
  rcases Nat.le_total passed 16 with hfew | hmany
  · have hfound : (Interval.around m.index).onGrid tie
        (leadingPlace (2 * units m.index) (2 * one) - passed) ≠ none := by
      rw [← hpassed, sub_sub_cancel]
      exact onGrid_ne_none_of_holds tie (holds_iff.mpr h)
    have hend := (search_spec hfew hfound).2
    have hstripped := (toRat_stripped ((Interval.around m.index).search tie
      (leadingPlace (2 * units m.index) (2 * one)) 16)).2
    omega
  · have hend := (search_spec (Nat.le_refl 16) (onGrid_seventeen hpos tie)).2
    have hstripped := (toRat_stripped ((Interval.around m.index).search tie
      (leadingPlace (2 * units m.index) (2 * one)) 16)).2
    omega

/-- The shortest decimal of a whole number has no fraction. -/
theorem exponent_shortest_nonneg (tie : Tie) {m : Magnitude} {n : ℕ} (hpos : 0 < m.index)
    (hunits : units m.index = n * one) : 0 ≤ (shortest tie m).exponent := by
  have hself : RoundsTo ⟨n, 0⟩ m.index := by
    refine roundsTo_natCast_iff.mpr ?_
    rw [Nat.pow_zero, Nat.mul_one, ← hunits]
    exact Magnitude.nearest_units_one m.index
  refine le_exponent_shortest tie hpos ?_ hself
  have hn : 0 < n := by
    refine Nat.pos_of_ne_zero ?_
    rintro rfl
    have := units_strictMono hpos
    rw [hunits, Magnitude.units_zero] at this
    omega
  have hle : 2 * one ≤ 2 * units m.index := by
    rw [hunits]
    exact Nat.mul_le_mul_left 2 (Nat.le_mul_of_pos_left one hn)
  have hlength : 0 < (numeral (2 * units m.index / (2 * one))).length := Nat.length_toDigits_pos
  rw [leadingPlace, if_pos hle]
  omega

/-- Only the magnitude zero has no digits. -/
theorem digits_shortest_ne_zero (tie : Tie) {m : Magnitude} (h : m.index ≠ 0) :
    (shortest tie m).digits ≠ 0 := by
  intro hdigits
  have hzero : (shortest tie m).quotient.1 = 0 := by
    rw [quotient, hdigits]
    split
    · exact Nat.zero_mul _
    · rfl
  have hnone : nearest 0 (shortest tie m).quotient.2 = nearest 0 1 :=
    Magnitude.nearest_congr (quotient_pos _) Nat.one_pos (by omega)
  have hround := nearest_shortest tie m
  rw [RoundsTo, hzero, Nat.zero_mul, hnone,
    Magnitude.nearest_one_of_lt (by have := Magnitude.binade_pos; omega)] at hround
  exact h hround.symm

/-- No zeros are at the end of the shortest decimal. -/
theorem digits_shortest_mod (tie : Tie) {m : Magnitude} (h : m.index ≠ 0) :
    (shortest tie m).digits % 10 ≠ 0 := by
  have hdigits := digits_shortest_ne_zero tie h
  rw [shortest_of_pos (Nat.pos_of_ne_zero h)] at hdigits ⊢
  exact digits_stripped_mod hdigits

/-! ## Whole numbers -/

/-- The digits of a decimal without a fraction are those of the whole number. -/
theorem positional_natCast (digits places : ℕ) :
    positional ⟨digits, places⟩ = numeral digits ++ zeros places := by
  rw [positional]
  exact if_pos (Int.natCast_nonneg places)

theorem valueOf_append_zeros (digits places : ℕ) :
    valueOf (numeral digits ++ zeros places) = digits * 10 ^ places := by
  rw [valueOf, Nat.ofDigitChars_append, show Nat.ofDigitChars 10 (numeral digits) 0 = digits from
    valueOf_numeral digits, zeros, Nat.ofDigitChars_replicate_zero]
  ring

/-- A decimal with a fraction is set out with a point. -/
theorem point_mem_positional {d : Decimal} (h : d.exponent < 0) : '.' ∈ d.positional := by
  rw [positional, if_neg (not_le.mpr h)]
  dsimp only
  split <;> simp

/-- Only a decimal without a fraction is set out as a numeral. -/
theorem exponent_nonneg_of_positional {d : Decimal} {n : ℕ} (h : d.positional = numeral n) :
    0 ≤ d.exponent := by
  refine le_of_not_gt fun hneg => ?_
  have hdigit := isDigit_of_mem_numeral (h ▸ point_mem_positional hneg)
  revert hdigit
  decide

/-- **Whole numbers**: the positional text of a magnitude is the numeral of a whole number just if the
whole number rounds to the magnitude. -/
theorem positional_shortest_eq_iff (tie : Tie) {m : Magnitude} {n : ℕ} (h : n < 2 * Magnitude.binade) :
    (shortest tie m).positional = numeral n ↔ m.index = nearest (n * one) 1 := by
  have hround := nearest_shortest tie m
  constructor
  · intro htext
    obtain ⟨places, hplaces⟩ := Int.eq_ofNat_of_zero_le (exponent_nonneg_of_positional htext)
    generalize shortest tie m = d at hround htext hplaces
    obtain ⟨digits, exponent⟩ := d
    obtain rfl : exponent = places := hplaces
    rw [positional_natCast] at htext
    have hvalue := congrArg valueOf htext
    rw [valueOf_append_zeros, valueOf_numeral] at hvalue
    rw [← hvalue]
    exact (roundsTo_natCast_iff.mp hround).symm
  · intro hindex
    have hunits : units m.index = n * one := by
      rw [hindex, Magnitude.units_nearest_whole h.le]
    rcases Nat.eq_zero_or_pos m.index with hzero | hpos
    · rw [hzero, Magnitude.units_zero] at hunits
      have hn : n = 0 := by
        have := Magnitude.one_pos
        rcases Nat.mul_eq_zero.mp hunits.symm with hn | hone
        · exact hn
        · omega
      rw [shortest_of_index_eq_zero tie hzero, hn]
      rfl
    · obtain ⟨places, hplaces⟩ := Int.eq_ofNat_of_zero_le
        (exponent_shortest_nonneg tie hpos hunits)
      generalize shortest tie m = d at hround hplaces ⊢
      obtain ⟨digits, exponent⟩ := d
      obtain rfl : exponent = places := hplaces
      rw [positional_natCast]
      have hvalue : digits * 10 ^ places = n :=
        Magnitude.nearest_whole_inj h ((roundsTo_natCast_iff.mp hround).trans hindex)
      have hdigits : digits ≠ 0 := by
        rintro rfl
        rw [Nat.zero_mul] at hvalue
        rw [← hvalue, Nat.zero_mul, ← Magnitude.units_zero] at hunits
        exact hpos.ne' (units_strictMono.injective hunits)
      rw [← hvalue, numeral_mul_pow hdigits]

end Abacus.Decimal
