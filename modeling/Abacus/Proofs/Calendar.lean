import Abacus.Calendar
import Mathlib.Tactic.IntervalCases

/-!
# Calendar — the day of a number is found by counting

The day of a number is computed from it at once, without a look at the days before.  Here it is
compared with counting: from the first of January of 1970 on, and back from there, each day is the one
after another (`IsDay`), where the day after is found with the lengths of the months and nothing else.
The comparison is made through the formula for the number of a day.  It goes up by one from a day to
the day after (`dayNumber_next`) and is lower for what comes before (`dayNumber_lt_of_isBefore`), so no
two days have the same number; and the day that is computed from a number has that number
(`dayNumber_ofDayNumber`).  So it is the day that is counted out (`isDay_iff`), and numbers are in the
order of their days (`isBefore_iff_lt`).
-/

namespace Abacus.Calendar

/-! ## Days one after another -/

/-- The first day of the month after. -/
def Date.nextMonth (date : Date) : Date :=
  if date.month < 12 then ⟨date.year, date.month + 1, 1⟩ else ⟨date.year + 1, 1, 1⟩

/-- The day after. -/
def Date.next (date : Date) : Date :=
  if date.day < monthLength date.year date.month then { date with day := date.day + 1 }
  else date.nextMonth

/-- The day comes so many days after the first of January of 1970, or before it. -/
inductive IsDay : ℤ → Date → Prop where
  | epoch : IsDay 0 ⟨1970, 1, 1⟩
  | next {number : ℤ} {date : Date} : IsDay number date → IsDay (number + 1) date.next
  | previous {number : ℤ} {date : Date} :
      date.IsValid → IsDay (number + 1) date.next → IsDay number date

/-- One day comes before another. -/
def Date.IsBefore (date date' : Date) : Prop :=
  date.year < date'.year ∨ date.year = date'.year ∧
    (date.month < date'.month ∨ date.month = date'.month ∧ date.day < date'.day)

/-- Of two days one comes before the other. -/
theorem Date.eq_or_isBefore (date date' : Date) :
    date = date' ∨ date.IsBefore date' ∨ date'.IsBefore date := by
  obtain ⟨year, month, day⟩ := date
  obtain ⟨year', month', day'⟩ := date'
  simp only [Date.mk.injEq, Date.IsBefore]
  omega

/-! ## Years that begin in March -/

/-- Every fourth year has a leap day, but of the full centuries only every fourth. -/
theorem isLeap_iff {year : ℤ} :
    isLeap year = true ↔ year % 4 = 0 ∧ (year % 100 ≠ 0 ∨ year % 400 = 0) := by
  simp [isLeap]

/-- Days from the first of March of year zero to the first of March of a year. -/
def yearStart (year : ℤ) : ℤ :=
  365 * year + year / 4 - year / 100 + year / 400

/-- A year that begins in March has its leap day, if it has one, at the end, in the next year. -/
theorem yearStart_succ (year : ℤ) :
    yearStart (year + 1) = yearStart year + if isLeap (year + 1) then 366 else 365 := by
  simp only [yearStart, isLeap_iff]
  split
  · omega
  · omega

theorem yearStart_mono {year year' : ℤ} (h : year ≤ year') : yearStart year ≤ yearStart year' := by
  simp only [yearStart]
  omega

/-- Days from the first of March to the first of the month that comes so many months later. -/
def monthStart (month : ℕ) : ℕ :=
  (153 * month + 2) / 5

/-- The year of a date, if years begin in March. -/
def Date.marchYear (date : Date) : ℤ :=
  if date.month ≤ 2 then date.year - 1 else date.year

/-- How many months the month comes after March. -/
def Date.marchMonth (date : Date) : ℕ :=
  (date.month + 9) % 12

/-- The number of a day, by its year and its month from March on. -/
theorem dayNumber_eq (date : Date) : dayNumber date =
    yearStart date.marchYear + monthStart date.marchMonth + date.day - 1 - epochDay := by
  simp only [dayNumber, yearStart, monthStart, Date.marchYear, Date.marchMonth]
  omega

/-- A month lasts up to the next. -/
theorem monthStart_succ {date : Date} (hmonth : 1 ≤ date.month ∧ date.month ≤ 12)
    (h : date.marchMonth < 11) :
    monthStart (date.marchMonth + 1) =
      monthStart date.marchMonth + monthLength date.year date.month := by
  obtain ⟨year, month, day⟩ := date
  obtain ⟨hpos, hle⟩ := hmonth
  simp only [Date.marchMonth] at *
  have hmarch : month = 1 ∨ 3 ≤ month := by omega
  rcases hmarch with rfl | hmarch
  · rfl
  · interval_cases month <;> rfl

/-- The last month lasts up to the end of the year. -/
theorem yearStart_marchYear_succ {date : Date} (hmonth : 1 ≤ date.month ∧ date.month ≤ 12)
    (h : date.marchMonth = 11) :
    yearStart (date.marchYear + 1) = yearStart date.marchYear + monthStart date.marchMonth +
      monthLength date.year date.month := by
  obtain ⟨year, month, day⟩ := date
  simp only [Date.marchMonth] at *
  obtain rfl : month = 2 := by omega
  show yearStart (year - 1 + 1) = yearStart (year - 1) + _ + _
  rw [yearStart_succ, Int.sub_add_cancel]
  simp only [monthLength, monthStart, if_true]
  split
  · omega
  · omega

theorem marchMonth_le (date : Date) : date.marchMonth ≤ 11 :=
  Nat.le_of_lt_succ (Nat.mod_lt _ (by decide))

/-- A day comes when its year has begun. -/
theorem yearStart_le {date : Date} (h : date.IsValid) :
    yearStart date.marchYear ≤ dayNumber date + epochDay := by
  have hday := h.2.2.1
  rw [dayNumber_eq]
  omega

/-- A day comes before the year is over. -/
theorem lt_yearStart_succ {date : Date} (h : date.IsValid) :
    dayNumber date + epochDay < yearStart (date.marchYear + 1) := by
  obtain ⟨hpos, hle, hday, hlast⟩ := h
  rw [dayNumber_eq]
  rcases Nat.lt_or_eq_of_le (marchMonth_le date) with hmonth | hmonth
  · -- the first eleven months are over when the last begins
    have hnext := monthStart_succ ⟨hpos, hle⟩ hmonth
    have hlength : 365 ≤ yearStart (date.marchYear + 1) - yearStart date.marchYear := by
      rw [yearStart_succ]
      split <;> omega
    simp only [monthStart] at hnext ⊢
    omega
  · have hnext := yearStart_marchYear_succ ⟨hpos, hle⟩ hmonth
    omega

/-- What comes before has the lower number. -/
theorem dayNumber_lt_of_isBefore {date date' : Date} (h : date.IsValid) (h' : date'.IsValid)
    (hbefore : date.IsBefore date') : dayNumber date < dayNumber date' := by
  have hmarch : date.marchYear < date'.marchYear ∨ date.marchYear = date'.marchYear ∧
      (date.marchMonth < date'.marchMonth ∨
        date.marchMonth = date'.marchMonth ∧ date.day < date'.day) := by
    obtain ⟨hpos, hle, -, -⟩ := h
    obtain ⟨hpos', hle', -, -⟩ := h'
    simp only [Date.IsBefore] at hbefore
    simp only [Date.marchYear, Date.marchMonth]
    omega
  rcases hmarch with hyear | ⟨hyear, hmonth | ⟨hmonth, hday⟩⟩
  · have hend := lt_yearStart_succ h
    have hstart := yearStart_le h'
    have hle := yearStart_mono (Int.add_one_le_of_lt hyear)
    omega
  · have hnext := monthStart_succ ⟨h.1, h.2.1⟩ (Nat.lt_of_lt_of_le hmonth (marchMonth_le date'))
    have hle : monthStart (date.marchMonth + 1) ≤ monthStart date'.marchMonth := by
      simp only [monthStart]
      omega
    have hday := h.2.2.2
    have hday' := h'.2.2.1
    rw [dayNumber_eq, dayNumber_eq, hyear]
    omega
  · rw [dayNumber_eq, dayNumber_eq, hyear, hmonth]
    omega

/-- Two days have the same number only if they are the same. -/
theorem dayNumber_inj {date date' : Date} (h : date.IsValid) (h' : date'.IsValid)
    (hnumber : dayNumber date = dayNumber date') : date = date' := by
  rcases date.eq_or_isBefore date' with heq | hbefore | hafter
  · exact heq
  · exact absurd hnumber (dayNumber_lt_of_isBefore h h' hbefore).ne
  · exact absurd hnumber (dayNumber_lt_of_isBefore h' h hafter).ne'

/-- A month has between 28 and 31 days. -/
theorem monthLength_mem (year : ℤ) (month : ℕ) :
    28 ≤ monthLength year month ∧ monthLength year month ≤ 31 := by
  rw [monthLength]
  split
  · split
    · decide
    · decide
  · split
    · decide
    · decide

/-- The first of the next month is a day that there is. -/
theorem Date.isValid_nextMonth {date : Date} : date.nextMonth.IsValid := by
  have hpos (year : ℤ) (month : ℕ) : 1 ≤ monthLength year month :=
    Nat.le_trans (by decide) (monthLength_mem year month).1
  rw [Date.nextMonth]
  split
  · next hmonth => exact ⟨Nat.succ_pos _, hmonth, Nat.le_refl 1, hpos _ _⟩
  · exact ⟨Nat.le_refl 1, Nat.le_of_ble_eq_true rfl, Nat.le_refl 1, hpos _ _⟩

/-- The next day is a day that there is. -/
theorem Date.IsValid.next {date : Date} (h : date.IsValid) : date.next.IsValid := by
  rw [Date.next]
  split
  · next hday => exact ⟨h.1, h.2.1, Nat.succ_pos _, hday⟩
  · exact Date.isValid_nextMonth

/-- The next month is the next of the year, or the first of the next year. -/
theorem march_nextMonth {date : Date} (hmonth : 1 ≤ date.month ∧ date.month ≤ 12) :
    date.marchMonth < 11 ∧ date.nextMonth.marchYear = date.marchYear ∧
        date.nextMonth.marchMonth = date.marchMonth + 1 ∨
      date.marchMonth = 11 ∧ date.nextMonth.marchYear = date.marchYear + 1 ∧
        date.nextMonth.marchMonth = 0 := by
  rw [Date.nextMonth]
  split
  · simp only [Date.marchYear, Date.marchMonth]
    omega
  · simp only [Date.marchYear, Date.marchMonth]
    omega

/-- A month is over after as many days as it has. -/
theorem dayNumber_nextMonth {date : Date} (hmonth : 1 ≤ date.month ∧ date.month ≤ 12) :
    dayNumber date.nextMonth = yearStart date.marchYear + monthStart date.marchMonth +
      monthLength date.year date.month - epochDay := by
  have hfirst : date.nextMonth.day = 1 := by
    rw [Date.nextMonth]
    split
    · rfl
    · rfl
  rw [dayNumber_eq, hfirst]
  rcases march_nextMonth hmonth with ⟨hlt, hyear, hnext⟩ | ⟨hlast, hyear, hnext⟩
  · rw [hyear, hnext, monthStart_succ hmonth hlt]
    omega
  · rw [hyear, hnext, yearStart_marchYear_succ hmonth hlast, show monthStart 0 = 0 from rfl]
    omega

/-- The next day has the next number. -/
theorem dayNumber_next {date : Date} (h : date.IsValid) :
    dayNumber date.next = dayNumber date + 1 := by
  obtain ⟨hpos, hle, hday, hlast⟩ := h
  rw [Date.next]
  rcases Nat.lt_or_eq_of_le hlast with hin | hend
  · rw [if_pos hin, dayNumber_eq, dayNumber_eq]
    simp only [Date.marchYear, Date.marchMonth]
    omega
  · rw [if_neg hend.not_lt, dayNumber_nextMonth ⟨hpos, hle⟩, dayNumber_eq]
    omega

/-! ## A day by its number -/

/-- The day that comes so many days after the first of March of a year. -/
def ofYearDay (year : ℤ) (day : ℕ) : Date :=
  let month := (5 * day + 2) / 153
  if month < 10 then ⟨year, month + 3, day - monthStart month + 1⟩
  else ⟨year + 1, month - 9, day - monthStart month + 1⟩

theorem day_ofYearDay (year : ℤ) (day : ℕ) :
    (ofYearDay year day).day = day - monthStart ((5 * day + 2) / 153) + 1 := by
  simp only [ofYearDay]
  split
  · rfl
  · rfl

section YearDays

variable {year : ℤ} {day : ℕ}

theorem le_of_lt_yearStart_succ (h : yearStart year + day < yearStart (year + 1)) : day ≤ 365 := by
  rw [yearStart_succ] at h
  split at h
  · omega
  · omega

/-- The month is found from the days of the year before it. -/
theorem march_ofYearDay (h : day ≤ 365) : (ofYearDay year day).marchYear = year ∧
    (ofYearDay year day).marchMonth = (5 * day + 2) / 153 := by
  simp only [ofYearDay]
  split
  · simp only [Date.marchYear, Date.marchMonth]
    omega
  · simp only [Date.marchYear, Date.marchMonth]
    omega

/-- A day of a year has the number of the day that the year begins with and its own. -/
theorem dayNumber_ofYearDay (h : yearStart year + day < yearStart (year + 1)) :
    dayNumber (ofYearDay year day) + epochDay = yearStart year + day := by
  obtain ⟨hyear, hmonth⟩ := march_ofYearDay (le_of_lt_yearStart_succ h)
  rw [dayNumber_eq, day_ofYearDay, hyear, hmonth]
  simp only [monthStart]
  omega

/-- A day of a year is one that there is. -/
theorem isValid_ofYearDay (h : yearStart year + day < yearStart (year + 1)) :
    (ofYearDay year day).IsValid := by
  obtain ⟨hyear, hmarch⟩ := march_ofYearDay (le_of_lt_yearStart_succ h)
  have hmonth : 1 ≤ (ofYearDay year day).month ∧ (ofYearDay year day).month ≤ 12 := by
    have hday := le_of_lt_yearStart_succ h
    simp only [ofYearDay]
    split
    · simp only
      omega
    · simp only
      omega
  refine ⟨hmonth.1, hmonth.2, ?_, ?_⟩
  · rw [day_ofYearDay]
    exact Nat.succ_pos _
  · rw [day_ofYearDay]
    rcases Nat.lt_or_eq_of_le (marchMonth_le (ofYearDay year day)) with hlt | hlast
    · have hnext := monthStart_succ hmonth hlt
      rw [hmarch] at hnext
      simp only [monthStart] at hnext ⊢
      omega
    · have hnext := yearStart_marchYear_succ hmonth hlast
      rw [hmarch] at hlast
      rw [hyear, hmarch] at hnext
      simp only [monthStart] at hnext ⊢
      omega

end YearDays

/-- A day of an era, counted in whole centuries, whole cycles of four years, whole years and days.
The last year of a cycle has a day more, unless the cycle is the last of its century; the last
century of an era has that day too. -/
structure IsEraDay (century cycle year day : ℕ) : Prop where
  century_le : century ≤ 3
  cycle_le : cycle ≤ 24
  year_le : year ≤ 3
  day_le : day ≤ 365
  leap : day = 365 → year = 3 ∧ (cycle < 24 ∨ century = 3)

section Eras

variable {century cycle year day : ℕ}

/-- Every day of an era is found so. -/
theorem exists_isEraDay {dayOfEra : ℕ} (h : dayOfEra < 146097) :
    ∃ century cycle year day, IsEraDay century cycle year day ∧
      dayOfEra = 36524 * century + 1461 * cycle + 365 * year + day := by
  obtain ⟨century, rest, hcentury, hrest, rfl⟩ : ∃ century rest,
      century ≤ 3 ∧ (rest < 36524 ∨ century = 3 ∧ rest = 36524) ∧
        dayOfEra = 36524 * century + rest :=
    ⟨min (dayOfEra / 36524) 3, dayOfEra - 36524 * min (dayOfEra / 36524) 3, by omega⟩
  obtain ⟨year, day, hyear, hday, hcycle⟩ : ∃ year day,
      year ≤ 3 ∧ (day < 365 ∨ year = 3 ∧ day = 365) ∧ rest % 1461 = 365 * year + day :=
    ⟨min (rest % 1461 / 365) 3, rest % 1461 - 365 * min (rest % 1461 / 365) 3, by omega⟩
  exact ⟨century, rest / 1461, year, day, ⟨hcentury, by omega, hyear, by omega, by omega⟩,
    by omega⟩

/-- The days before the year are those of the centuries, cycles and years before it. -/
theorem IsEraDay.yearStart_eq (h : IsEraDay century cycle year day) (era : ℤ) :
    yearStart ((100 * century + 4 * cycle + year : ℕ) + era * 400) =
      146097 * era + 36524 * century + 1461 * cycle + 365 * year := by
  obtain ⟨hcentury, hcycle, hyear, -, -⟩ := h
  simp only [yearStart]
  omega

/-- The year is not over. -/
theorem IsEraDay.lt_yearStart_succ (h : IsEraDay century cycle year day) (era : ℤ) :
    yearStart ((100 * century + 4 * cycle + year : ℕ) + era * 400) + day <
      yearStart ((100 * century + 4 * cycle + year : ℕ) + era * 400 + 1) := by
  obtain ⟨hcentury, hcycle, hyear, hday, hleap⟩ := h
  rw [yearStart_succ]
  simp only [isLeap_iff]
  omega

/-- A year is counted for every 365 days, after one day has been taken off for each cycle that is over
and one put back for each century. -/
theorem IsEraDay.year_eq (h : IsEraDay century cycle year day) {dayOfEra : ℕ}
    (hera : dayOfEra = 36524 * century + 1461 * cycle + 365 * year + day) :
    (dayOfEra - dayOfEra / 1460 + dayOfEra / 36524 - dayOfEra / 146096) / 365 =
      100 * century + 4 * cycle + year := by
  obtain ⟨hcentury, hcycle, hyear, hday, hleap⟩ := h
  -- at the end of a cycle its day is taken off before it is over
  obtain ⟨extra, hextra⟩ : ∃ extra, (24 * century + cycle + 365 * year + day) / 1460 = extra :=
    ⟨_, rfl⟩
  have hcycles : dayOfEra / 1460 = 25 * century + cycle + extra := by
    rw [hera, ← hextra, ← Nat.mul_add_div (by decide)]
    congr 1
    omega
  have hle : extra ≤ 1 := by omega
  have hone : extra = 1 ↔ 1460 ≤ 24 * century + cycle + 365 * year + day := by omega
  have hdays : dayOfEra - dayOfEra / 1460 + dayOfEra / 36524 - dayOfEra / 146096 =
      dayOfEra - (25 * century + cycle + extra) + century := by
    rw [hcycles]
    rcases Nat.lt_or_ge dayOfEra 146096 with hlt | hlast
    · rw [show dayOfEra / 36524 = century by omega, show dayOfEra / 146096 = 0 by omega]
      rfl
    · rw [show dayOfEra / 36524 = century + 1 by omega, show dayOfEra / 146096 = 1 by omega]
      rfl
  rw [hdays]
  clear hextra hcycles hdays
  exact Nat.div_eq_of_lt_le (by omega) (by omega)

end Eras

/-- The day of a number is the day of a year that is not over then. -/
theorem exists_ofYearDay (number : ℤ) : ∃ year day, ofDayNumber number = ofYearDay year day ∧
    number + epochDay = yearStart year + day ∧ yearStart year + day < yearStart (year + 1) := by
  obtain ⟨era, hera⟩ : ∃ era, (number + epochDay) / 146097 = era := ⟨_, rfl⟩
  obtain ⟨dayOfEra, hrest⟩ : ∃ dayOfEra, ((number + epochDay) % 146097).toNat = dayOfEra :=
    ⟨_, rfl⟩
  have hnumber : number + epochDay = 146097 * era + dayOfEra := by omega
  obtain ⟨century, cycle, year, day, hparts, hday⟩ :=
    exists_isEraDay (show dayOfEra < 146097 by omega)
  have hyear := hparts.year_eq hday
  refine ⟨(100 * century + 4 * cycle + year : ℕ) + era * 400, day, ?_, ?_,
    hparts.lt_yearStart_succ era⟩
  · have hoff : dayOfEra - (365 * (100 * century + 4 * cycle + year) +
        (100 * century + 4 * cycle + year) / 4 - (100 * century + 4 * cycle + year) / 100) = day := by
      obtain ⟨hcentury, hcycle, hle, -, -⟩ := hparts
      have hcycles : (100 * century + 4 * cycle + year) / 4 = 25 * century + cycle := by omega
      have hcenturies : (100 * century + 4 * cycle + year) / 100 = century := by omega
      rw [hcycles, hcenturies, hday]
      omega
    simp only [ofDayNumber, hera, hrest, hyear, hoff]
    rfl
  · rw [hparts.yearStart_eq, hnumber, hday]
    push_cast
    omega

/-- The day of a number is one that there is. -/
theorem isValid_ofDayNumber (number : ℤ) : (ofDayNumber number).IsValid := by
  obtain ⟨year, day, heq, -, hlt⟩ := exists_ofYearDay number
  rw [heq]
  exact isValid_ofYearDay hlt

/-- The day of a number has that number. -/
@[simp] theorem dayNumber_ofDayNumber (number : ℤ) : dayNumber (ofDayNumber number) = number := by
  obtain ⟨year, day, heq, hnumber, hlt⟩ := exists_ofYearDay number
  have hyearDay := dayNumber_ofYearDay hlt
  rw [heq]
  omega

/-- A day is the one of its number. -/
theorem ofDayNumber_dayNumber {date : Date} (h : date.IsValid) :
    ofDayNumber (dayNumber date) = date :=
  dayNumber_inj (isValid_ofDayNumber _) h (dayNumber_ofDayNumber _)

/-- The day of the next number is the day after. -/
theorem next_ofDayNumber (number : ℤ) : (ofDayNumber number).next = ofDayNumber (number + 1) := by
  have hvalid := isValid_ofDayNumber number
  refine dayNumber_inj hvalid.next (isValid_ofDayNumber _) ?_
  rw [dayNumber_next hvalid, dayNumber_ofDayNumber, dayNumber_ofDayNumber]

/-! ## Counting -/

/-- What is counted out is a day that there is, and the count is its number. -/
theorem IsDay.isValid_and {number : ℤ} {date : Date} (h : IsDay number date) :
    date.IsValid ∧ dayNumber date = number := by
  induction h with
  | epoch => exact ⟨⟨by decide, by decide, by decide, by decide⟩, by decide⟩
  | next _ ih => exact ⟨ih.1.next, by rw [dayNumber_next ih.1, ih.2]⟩
  | previous hvalid _ ih =>
      refine ⟨hvalid, ?_⟩
      have hnext := dayNumber_next hvalid
      omega

/-- Counting comes to the day of every number. -/
theorem isDay_ofDayNumber (number : ℤ) : IsDay number (ofDayNumber number) := by
  induction number with
  | zero => exact .epoch
  | succ number ih =>
      rw [← next_ofDayNumber]
      exact ih.next
  | pred number ih =>
      refine .previous (isValid_ofDayNumber _) ?_
      rw [next_ofDayNumber, Int.sub_add_cancel]
      exact ih

/-- **Each number is that of one day.** -/
theorem isDay_iff {number : ℤ} {date : Date} : IsDay number date ↔ date = ofDayNumber number := by
  constructor
  · intro h
    obtain ⟨hvalid, rfl⟩ := h.isValid_and
    exact (ofDayNumber_dayNumber hvalid).symm
  · rintro rfl
    exact isDay_ofDayNumber number

/-- Days come one before the other as their numbers do. -/
theorem isBefore_iff_lt {date date' : Date} {number number' : ℤ} (h : IsDay number date)
    (h' : IsDay number' date') : date.IsBefore date' ↔ number < number' := by
  obtain ⟨hvalid, rfl⟩ := h.isValid_and
  obtain ⟨hvalid', rfl⟩ := h'.isValid_and
  constructor
  · exact dayNumber_lt_of_isBefore hvalid hvalid'
  · intro hlt
    rcases date.eq_or_isBefore date' with rfl | hbefore | hafter
    · exact absurd hlt (Int.lt_irrefl _)
    · exact hbefore
    · exact absurd hlt (Int.not_lt.mpr (dayNumber_lt_of_isBefore hvalid' hvalid hafter).le)

/-- A day that there is is the one of its number. -/
theorem Date.IsValid.isDay {date : Date} (h : date.IsValid) : IsDay (dayNumber date) date :=
  isDay_iff.mpr (ofDayNumber_dayNumber h).symm

section Years

variable {date : Date} {number : ℤ}

/-- A year and those after it begin with the first of January. -/
theorem IsDay.le_year_iff (h : IsDay number date) (year : ℤ) :
    year ≤ date.year ↔ dayNumber ⟨year, 1, 1⟩ ≤ number := by
  obtain ⟨hpos, -, hday, -⟩ := h.isValid_and.1
  have hfirst : IsDay (dayNumber ⟨year, 1, 1⟩) ⟨year, 1, 1⟩ :=
    Date.IsValid.isDay ⟨by simp, by simp, by simp, by simp [monthLength]⟩
  have hbefore := isBefore_iff_lt h hfirst
  simp only [Date.IsBefore] at hbefore
  omega

/-- A year and those before it end with the thirty-first of December. -/
theorem IsDay.year_le_iff (h : IsDay number date) (year : ℤ) :
    date.year ≤ year ↔ number ≤ dayNumber ⟨year, 12, 31⟩ := by
  obtain ⟨-, hle, -, hday⟩ := h.isValid_and.1
  have hlength := (monthLength_mem date.year date.month).2
  have hlast : IsDay (dayNumber ⟨year, 12, 31⟩) ⟨year, 12, 31⟩ :=
    Date.IsValid.isDay ⟨by simp, by simp, by simp, by simp [monthLength]⟩
  have hbefore := isBefore_iff_lt hlast h
  simp only [Date.IsBefore] at hbefore
  omega

end Years

end Abacus.Calendar
