import Abacus.Proofs.Calendar
import Abacus.Proofs.Decimal.Numeral

/-!
# Timestamp — a moment is told by its text

The text of a moment whose year is shown is a stamp of it (`IsStamp`): its day and its time of day in
fields of digits with marks between them.  What follows the year always has the same length, so a stamp
is one of one moment only (`IsStamp.unique`); and where the year has four digits too, stamps come one
after the other as their moments do, field by field (`IsStamp.lt_iff`).  Moments in turn are in the
order of their seconds (`Moment.IsAt.isBefore_iff`).  A moment whose year is not shown has the numeral
of its milliseconds for a text, which no stamp is (`timestamp_tells`).
-/

namespace Abacus.Calendar

open Decimal (numeral signedNumeral valueOf)

/-! ## Digits in order -/

section Digits

variable {p q x y : List Char}

/-- Texts that begin with as many characters are compared by these first. -/
theorem append_lt_append_iff (h : p.length = q.length) :
    p ++ x < q ++ y ↔ p < q ∨ p = q ∧ x < y := by
  induction p generalizing q with
  | nil =>
      obtain rfl := List.length_eq_zero_iff.mp h.symm
      simp
  | cons c p ih =>
      cases q with
      | nil => exact nomatch h
      | cons e q =>
          simp only [List.cons_append, List.cons_lt_cons_iff, List.cons.injEq,
            ih (Nat.succ.inj h)]
          tauto

/-- As many digits are in the order of their numbers, whatever number has been read before them. -/
theorem ofDigitChars_lt_iff (h : p.length = q.length) (hp : ∀ c ∈ p, c.isDigit = true)
    (hq : ∀ c ∈ q, c.isDigit = true) (a b : ℕ) :
    Nat.ofDigitChars 10 p a < Nat.ofDigitChars 10 q b ↔ a < b ∨ a = b ∧ p < q := by
  -- the first digits that differ decide, for what comes after them counts for less than one of them
  induction p generalizing q a b with
  | nil =>
      obtain rfl := List.length_eq_zero_iff.mp h.symm
      simp
  | cons c p ih =>
      cases q with
      | nil => exact nomatch h
      | cons e q =>
          have hc := hp c List.mem_cons_self
          have he := hq e List.mem_cons_self
          rw [Nat.ofDigitChars_cons, Nat.ofDigitChars_cons, ih (Nat.succ.inj h)
            (fun c hc => hp c (List.mem_cons_of_mem _ hc))
            (fun c hc => hq c (List.mem_cons_of_mem _ hc)), List.cons_lt_cons_iff]
          have hlt : c < e ↔ c.toNat < e.toNat := UInt32.lt_iff_toNat_lt
          have heq : c = e ↔ c.toNat = e.toNat := Char.toNat_inj.symm
          have hdigit : 48 ≤ c.toNat ∧ c.toNat ≤ 57 := Char.isDigit_iff_toNat.mp hc
          have hdigit' : 48 ≤ e.toNat ∧ e.toNat ≤ 57 := Char.isDigit_iff_toNat.mp he
          rw [hlt, heq, show '0'.toNat = 48 from rfl]
          by_cases hrest : p < q
          · simp only [hrest, and_true]
            omega
          · simp only [hrest, and_false, or_false]
            omega

end Digits

/-! ## What is written -/

/-- A day and a time of day. -/
structure Moment where
  date : Date
  hour : ℕ
  minute : ℕ
  second : ℕ

/-- There is such a day and such a time of day, and the moment comes so many seconds after the start of
1970, or before it. -/
structure Moment.IsAt (seconds : ℤ) (moment : Moment) : Prop where
  isValid : moment.date.IsValid
  hour_lt : moment.hour < 24
  minute_lt : moment.minute < 60
  second_lt : moment.second < 60
  exists_isDay : ∃ number, IsDay number moment.date ∧
    seconds = 86400 * number + 3600 * moment.hour + 60 * moment.minute + moment.second

/-- The characters are digits, so many of them, and their number is the given one. -/
structure IsField (width n : ℕ) (digits : List Char) : Prop where
  isDigit : ∀ c ∈ digits, c.isDigit = true
  length_eq : digits.length = width
  valueOf_eq : valueOf digits = n

/-- The characters are a year, with four digits or as many more as it needs, and with a sign unless
it lies between 0 and 9999. -/
inductive IsYear : ℤ → List Char → Prop where
  | plain {year : ℕ} {digits : List Char} :
      year ≤ 9999 → IsField 4 year digits → IsYear year digits
  | negative {year width : ℕ} {digits : List Char} :
      0 < year → IsField width year digits → 4 ≤ width → (4 < width → digits.head? ≠ some '0') →
        IsYear (-year) ('-' :: digits)
  | positive {year width : ℕ} {digits : List Char} :
      9999 < year → IsField width year digits → 4 ≤ width → (4 < width → digits.head? ≠ some '0') →
        IsYear year ('+' :: digits)

/-- The text tells the moment: year, month and day, then hour, minute and second. -/
inductive IsStamp (moment : Moment) : List Char → Prop where
  | fields {year month day hour minute second : List Char} :
      IsYear moment.date.year year → IsField 2 moment.date.month month →
      IsField 2 moment.date.day day → IsField 2 moment.hour hour →
      IsField 2 moment.minute minute → IsField 2 moment.second second →
      IsStamp moment (year ++ ('-' :: (month ++ ('-' :: (day ++ (' ' ::
        (hour ++ (':' :: (minute ++ (':' :: (second ++ " UTC".toList)))))))))))

/-! ## Fields -/

section Fields

variable {width n n' : ℕ} {p q x y : List Char}

/-- Texts that begin with a field of the same width are compared by its numbers first. -/
theorem IsField.append_lt_iff (h : IsField width n p) (h' : IsField width n' q) :
    p ++ x < q ++ y ↔ n < n' ∨ n = n' ∧ x < y := by
  have hlength : p.length = q.length := h.length_eq.trans h'.length_eq.symm
  have hlt : p < q ↔ n < n' := by
    rw [← h.valueOf_eq, ← h'.valueOf_eq, valueOf, valueOf,
      ofDigitChars_lt_iff hlength h.isDigit h'.isDigit]
    simp
  have hgt : q < p ↔ n' < n := by
    rw [← h.valueOf_eq, ← h'.valueOf_eq, valueOf, valueOf,
      ofDigitChars_lt_iff hlength.symm h'.isDigit h.isDigit]
    simp
  have heq : p = q ↔ n = n' := by
    constructor
    · rintro rfl
      exact h.valueOf_eq.symm.trans h'.valueOf_eq
    · rintro rfl
      exact List.le_antisymm (List.not_lt.mp fun hbelow => Nat.lt_irrefl _ (hgt.mp hbelow))
        (List.not_lt.mp fun habove => Nat.lt_irrefl _ (hlt.mp habove))
  rw [append_lt_append_iff hlength, hlt, heq]

/-- A field of a known width is read back. -/
theorem IsField.append_inj (h : IsField width n p) (h' : IsField width n' q)
    (heq : p ++ x = q ++ y) : n = n' ∧ x = y := by
  obtain ⟨rfl, hrest⟩ := List.append_inj heq (h.length_eq.trans h'.length_eq.symm)
  exact ⟨h.valueOf_eq.symm.trans h'.valueOf_eq, hrest⟩

/-- A numeral with zeros before it is a field, as wide as it is meant to be or as it has to be. -/
theorem isField_padded (width n : ℕ) :
    IsField (max width (numeral n).length) n (padded width n) where
  isDigit c hc := by
    rcases List.mem_append.mp hc with hzero | hdigit
    · rw [List.eq_of_mem_replicate hzero]
      rfl
    · exact Decimal.isDigit_of_mem_numeral hdigit
  length_eq := by
    simp only [padded, List.length_append, List.length_replicate]
    omega
  valueOf_eq := by
    rw [padded]
    exact (Decimal.valueOf_zeros_append _ _).trans (Decimal.valueOf_numeral n)

/-- A number that is not too great is written in the width it is meant for. -/
theorem isField_padded_of_lt (hwidth : 0 < width) (hn : n < 10 ^ width) :
    IsField width n (padded width n) := by
  have hlength : (numeral n).length ≤ width :=
    (Nat.length_toDigits_le_iff (by decide) hwidth).mpr hn
  have hfield := isField_padded width n
  rwa [Nat.max_eq_left hlength] at hfield

/-- Where a numeral is longer than it has to be, it begins with none of the zeros put before it. -/
theorem head_padded (hwidth : 0 < width) (h : width < (numeral n).length) :
    (padded width n).head? ≠ some '0' := by
  rw [padded, Nat.sub_eq_zero_of_le h.le, List.replicate_zero, List.nil_append]
  refine Decimal.head_numeral ?_
  rintro rfl
  exact Nat.not_lt_of_ge hwidth h

/-- The text of a year is one. -/
theorem isYear_yearText (year : ℤ) : IsYear year (yearText year) := by
  have hhead (n : ℕ) (h : 4 < max 4 (numeral n).length) : (padded 4 n).head? ≠ some '0' :=
    head_padded (by decide) (by omega)
  rcases lt_or_ge year 0 with hneg | hnonneg
  · obtain ⟨n, rfl⟩ := Int.exists_eq_neg_ofNat hneg.le
    rw [yearText, if_neg (by simp; omega), if_pos hneg, Int.natAbs_neg, Int.natAbs_natCast]
    exact .negative (by omega) (isField_padded 4 n) (Nat.le_max_left ..) (hhead n)
  · obtain ⟨n, rfl⟩ := Int.eq_ofNat_of_zero_le hnonneg
    rcases Nat.lt_or_ge 9999 n with hlong | hshort
    · rw [yearText, if_neg (by simp; omega), if_neg (not_lt.mpr hnonneg), Int.natAbs_natCast]
      exact .positive hlong (isField_padded 4 n) (Nat.le_max_left ..) (hhead n)
    · rw [yearText, if_pos (by simp; omega), Int.toNat_natCast]
      exact .plain hshort (isField_padded_of_lt (by decide) (by omega))

/-- A text is that of one year only. -/
theorem IsYear.unique {year year' : ℤ} {text : List Char} (h : IsYear year text)
    (h' : IsYear year' text) : year = year' := by
  have hsign {c : Char} {width n : ℕ} {digits : List Char} (hc : c.isDigit = false)
      (h : IsField width n (c :: digits)) : False := by
    have hdigit := h.isDigit c List.mem_cons_self
    rw [hc] at hdigit
    contradiction
  cases h with
  | plain hle h =>
      cases h' with
      | plain _ h' => rw [← h.valueOf_eq, ← h'.valueOf_eq]
      | negative => exact (hsign rfl h).elim
      | positive => exact (hsign rfl h).elim
  | negative hpos h =>
      cases h' with
      | plain _ h' => exact (hsign rfl h').elim
      | negative _ h' => rw [← h.valueOf_eq, ← h'.valueOf_eq]
  | positive hlt h =>
      cases h' with
      | plain _ h' => exact (hsign rfl h').elim
      | positive _ h' => rw [← h.valueOf_eq, ← h'.valueOf_eq]

/-- A year of four digits has neither more digits nor a sign. -/
theorem IsYear.isField {year : ℤ} {text : List Char} (h : IsYear year text) (hnonneg : 0 ≤ year)
    (hle : year ≤ 9999) : IsField 4 year.toNat text := by
  cases h with
  | plain _ h => exact h
  | negative hpos => omega
  | positive hlt => omega

end Fields

/-! ## Moments -/

/-- One moment comes before another. -/
def Moment.IsBefore (moment moment' : Moment) : Prop :=
  moment.date.IsBefore moment'.date ∨ moment.date = moment'.date ∧
    (moment.hour < moment'.hour ∨ moment.hour = moment'.hour ∧
      (moment.minute < moment'.minute ∨ moment.minute = moment'.minute ∧
        moment.second < moment'.second))

section Moments

variable {moment moment' : Moment} {seconds seconds' : ℤ} {text text' : List Char}

/-- A text tells one moment only. -/
theorem IsStamp.unique (h : IsStamp moment text) (h' : IsStamp moment' text')
    (htext : text = text') : moment = moment' := by
  obtain ⟨hyear, hmonth, hday, hhour, hminute, hsecond⟩ := h
  obtain ⟨hyear', hmonth', hday', hhour', hminute', hsecond'⟩ := h'
  -- all that comes after the year is as long for one moment as for another
  obtain ⟨rfl, hrest⟩ := List.append_inj' htext (by
    simp only [List.length_cons, List.length_append, hmonth.length_eq, hmonth'.length_eq,
      hday.length_eq, hday'.length_eq, hhour.length_eq, hhour'.length_eq, hminute.length_eq,
      hminute'.length_eq, hsecond.length_eq, hsecond'.length_eq])
  obtain ⟨hmonths, hrest⟩ := hmonth.append_inj hmonth' (List.cons.inj hrest).2
  obtain ⟨hdays, hrest⟩ := hday.append_inj hday' (List.cons.inj hrest).2
  obtain ⟨hhours, hrest⟩ := hhour.append_inj hhour' (List.cons.inj hrest).2
  obtain ⟨hminutes, hrest⟩ := hminute.append_inj hminute' (List.cons.inj hrest).2
  obtain ⟨hseconds, -⟩ := hsecond.append_inj hsecond' (List.cons.inj hrest).2
  have hyears := hyear.unique hyear'
  obtain ⟨⟨year, month, day⟩, hour, minute, second⟩ := moment
  obtain ⟨⟨year', month', day'⟩, hour', minute', second'⟩ := moment'
  simp only at *
  subst_vars
  rfl

/-- Where years have four digits, texts come one after the other as the moments do. -/
theorem IsStamp.lt_iff (h : IsStamp moment text) (h' : IsStamp moment' text')
    (hyear : 0 ≤ moment.date.year ∧ moment.date.year ≤ 9999)
    (hyear' : 0 ≤ moment'.date.year ∧ moment'.date.year ≤ 9999) :
    text < text' ↔ moment.IsBefore moment' := by
  obtain ⟨hy, hmonth, hday, hhour, hminute, hsecond⟩ := h
  obtain ⟨hy', hmonth', hday', hhour', hminute', hsecond'⟩ := h'
  have hy := hy.isField hyear.1 hyear.2
  have hy' := hy'.isField hyear'.1 hyear'.2
  have hend : ¬ " UTC".toList < " UTC".toList := List.lt_irrefl _
  rw [hy.append_lt_iff hy']
  simp only [List.cons_lt_cons_iff, Char.lt_irrefl, false_or, true_and,
    hmonth.append_lt_iff hmonth', hday.append_lt_iff hday', hhour.append_lt_iff hhour',
    hminute.append_lt_iff hminute', hsecond.append_lt_iff hsecond', hend, and_false, or_false]
  obtain ⟨⟨year, month, day⟩, hour, minute, second⟩ := moment
  obtain ⟨⟨year', month', day'⟩, hour', minute', second'⟩ := moment'
  simp only [Moment.IsBefore, Date.IsBefore, Date.mk.injEq] at *
  omega

/-- Moments come one before the other as their seconds do. -/
theorem Moment.IsAt.isBefore_iff (h : moment.IsAt seconds) (h' : moment'.IsAt seconds') :
    moment.IsBefore moment' ↔ seconds < seconds' := by
  obtain ⟨-, hhour, hminute, hsecond, number, hday, rfl⟩ := h
  obtain ⟨-, hhour', hminute', hsecond', number', hday', rfl⟩ := h'
  have hbefore := isBefore_iff_lt hday hday'
  have hsame : moment.date = moment'.date ↔ number = number' := by
    constructor
    · intro hdate
      rw [← hday.isValid_and.2, ← hday'.isValid_and.2, hdate]
    · rintro rfl
      rw [isDay_iff.mp hday, isDay_iff.mp hday']
  simp only [Moment.IsBefore, hbefore, hsame]
  omega

/-- A moment comes after one number of seconds only. -/
theorem Moment.IsAt.seconds_unique (h : moment.IsAt seconds) (h' : moment.IsAt seconds') :
    seconds = seconds' := by
  obtain ⟨-, -, -, -, number, hday, rfl⟩ := h
  obtain ⟨-, -, -, -, number', hday', rfl⟩ := h'
  rw [← hday.isValid_and.2, ← hday'.isValid_and.2]

end Moments

/-! ## Timestamps -/

/-- The moment that comes so many seconds after the start of 1970. -/
def Moment.ofSeconds (seconds : ℤ) : Moment :=
  let second := (seconds % 86400).toNat
  ⟨ofDayNumber (seconds / 86400), second / 3600, second / 60 % 60, second % 60⟩

/-- Every number of seconds is that of a moment. -/
theorem Moment.isAt_ofSeconds (seconds : ℤ) : (Moment.ofSeconds seconds).IsAt seconds := by
  refine ⟨isValid_ofDayNumber _, ?_, Nat.mod_lt _ (by decide), Nat.mod_lt _ (by decide),
    seconds / 86400, isDay_ofDayNumber _, ?_⟩
  · simp only [Moment.ofSeconds]
    omega
  · simp only [Moment.ofSeconds]
    omega

/-- The text of a moment. -/
def Moment.text (moment : Moment) : List Char :=
  moment.date.text ++ ' ' :: (padded 2 moment.hour ++ ':' :: padded 2 moment.minute ++
    ':' :: padded 2 moment.second) ++ " UTC".toList

/-- The text of a moment is a stamp of it. -/
theorem Moment.IsAt.isStamp_text {moment : Moment} {seconds : ℤ} (h : moment.IsAt seconds) :
    IsStamp moment moment.text := by
  obtain ⟨⟨-, hmonth, -, hday⟩, hhour, hminute, hsecond, -⟩ := h
  have hlength := (monthLength_mem moment.date.year moment.date.month).2
  have hfield {n : ℕ} (h : n < 100) : IsField 2 n (padded 2 n) :=
    isField_padded_of_lt (by decide) h
  simp only [Moment.text, Date.text, List.append_assoc, List.cons_append]
  exact .fields (isYear_yearText _) (hfield (by omega)) (hfield (by omega)) (hfield (by omega))
    (hfield (by omega)) (hfield (by omega))

/-- The moment so many milliseconds after the start of 1970 lies in one of the years. -/
def IsInYears (first last milliseconds : ℤ) : Prop :=
  ∃ date, IsDay (milliseconds / 86400000) date ∧ first ≤ date.year ∧ date.year ≤ last

/-- The year is that of the moment found from the seconds. -/
theorem isInYears_iff {first last milliseconds : ℤ} : IsInYears first last milliseconds ↔
    first ≤ (Moment.ofSeconds (milliseconds / 1000)).date.year ∧
      (Moment.ofSeconds (milliseconds / 1000)).date.year ≤ last := by
  have hdays : milliseconds / 86400000 = milliseconds / 1000 / 86400 := by omega
  simp only [IsInYears, isDay_iff, exists_eq_left, hdays]
  exact Iff.rfl

/-- The year of the moment is one that is shown. -/
abbrev IsShown (milliseconds : ℤ) : Prop :=
  IsInYears leastYear greatestYear milliseconds

/-- An integer is written in decimal with a sign only below zero. -/
theorem toString_eq (n : ℤ) : toString n = String.ofList (signedNumeral n) := by
  cases n with
  | ofNat n => exact congrArg String.ofList (if_neg (Int.not_lt.mpr (Int.natCast_nonneg n))).symm
  | negSucc n =>
      rw [signedNumeral, if_pos (Int.negSucc_lt_zero n)]
      exact (@String.ofList_append ['-'] (numeral (n + 1))).symm

section Timestamps

variable {milliseconds milliseconds' : ℤ}

/-- Where the year is shown, the text is that of the moment. -/
theorem timestamp_of_isShown (h : IsShown milliseconds) :
    timestamp milliseconds = String.ofList (Moment.ofSeconds (milliseconds / 1000)).text := by
  have hyear := isInYears_iff.mp h
  exact if_pos (by simpa [Moment.ofSeconds] using hyear)

example : timestamp 951827696999 = "2000-02-29 12:34:56 UTC" := by decide

/-- Where it is not, the text is a numeral. -/
theorem timestamp_of_not_isShown (h : ¬ IsShown milliseconds) :
    timestamp milliseconds = toString milliseconds := by
  rw [toString_eq]
  refine if_neg fun hyear => h (isInYears_iff.mpr ?_)
  simpa [Moment.ofSeconds] using hyear

/-- No numeral is the text of a moment whose year is shown. -/
theorem timestamp_ne (h : IsShown milliseconds) (h' : ¬ IsShown milliseconds') :
    timestamp milliseconds ≠ timestamp milliseconds' := by
  rw [timestamp_of_isShown h, timestamp_of_not_isShown h', toString_eq]
  intro heq
  have hletter : 'U' ∈ signedNumeral milliseconds' := by
    rw [← String.ofList_injective heq]
    simp [Moment.text]
  exact absurd (Decimal.areParts_signedNumeral _ _ hletter) (by decide)

/-- Texts are the same within a second where the year is shown, and nowhere else. -/
theorem timestamp_eq_iff : timestamp milliseconds = timestamp milliseconds' ↔
    milliseconds = milliseconds' ∨ IsShown milliseconds ∧ IsShown milliseconds' ∧
      milliseconds / 1000 = milliseconds' / 1000 := by
  have hat := Moment.isAt_ofSeconds (milliseconds / 1000)
  have hat' := Moment.isAt_ofSeconds (milliseconds' / 1000)
  constructor
  · intro heq
    by_cases h : IsShown milliseconds
    · by_cases h' : IsShown milliseconds'
      · rw [timestamp_of_isShown h, timestamp_of_isShown h'] at heq
        have hmoment := hat.isStamp_text.unique hat'.isStamp_text (String.ofList_injective heq)
        exact Or.inr ⟨h, h', hat.seconds_unique (hmoment ▸ hat')⟩
      · exact absurd heq (timestamp_ne h h')
    · by_cases h' : IsShown milliseconds'
      · exact absurd heq.symm (timestamp_ne h' h)
      · rw [timestamp_of_not_isShown h, timestamp_of_not_isShown h', toString_eq, toString_eq] at heq
        exact Or.inl (Decimal.signedNumeral_injective (String.ofList_injective heq))
  · rintro (rfl | ⟨h, h', hsecond⟩)
    · rfl
    · rw [timestamp_of_isShown h, timestamp_of_isShown h', hsecond]

/-- Years of four digits are shown. -/
theorem isShown_of_plain (h : IsInYears 0 9999 milliseconds) : IsShown milliseconds := by
  obtain ⟨date, hday, hfirst, hlast⟩ := h
  refine ⟨date, hday, ?_, ?_⟩
  · rw [leastYear]
    omega
  · rw [greatestYear]
    omega

/-- Texts with years of four digits are in the order of the seconds. -/
theorem timestamp_lt_iff (h : IsInYears 0 9999 milliseconds)
    (h' : IsInYears 0 9999 milliseconds') :
    timestamp milliseconds < timestamp milliseconds' ↔
      milliseconds / 1000 < milliseconds' / 1000 := by
  have hat := Moment.isAt_ofSeconds (milliseconds / 1000)
  have hat' := Moment.isAt_ofSeconds (milliseconds' / 1000)
  rw [timestamp_of_isShown (isShown_of_plain h), timestamp_of_isShown (isShown_of_plain h'),
    String.lt_iff, String.toList_ofList, String.toList_ofList,
    hat.isStamp_text.lt_iff hat'.isStamp_text (isInYears_iff.mp h) (isInYears_iff.mp h'),
    hat.isBefore_iff hat']

/-- Years begin and end at known milliseconds. -/
theorem isInYears_iff_bounds {first last : ℤ} : IsInYears first last milliseconds ↔
    86400000 * dayNumber ⟨first, 1, 1⟩ ≤ milliseconds ∧
      milliseconds < 86400000 * (dayNumber ⟨last, 12, 31⟩ + 1) := by
  constructor
  · rintro ⟨date, hday, hfirst, hlast⟩
    rw [hday.le_year_iff] at hfirst
    rw [hday.year_le_iff] at hlast
    omega
  · rintro ⟨hfirst, hlast⟩
    have hday := isDay_ofDayNumber (milliseconds / 86400000)
    refine ⟨_, hday, (hday.le_year_iff first).mpr ?_, (hday.year_le_iff last).mpr ?_⟩
    · omega
    · omega

/-- **A moment is told by its text.**  Where the year of the moment is shown, the text is a stamp of
the moment that comes the whole number of seconds after the start of 1970; elsewhere it is the numeral
of the milliseconds.  Two texts are the same just when the milliseconds are, or when both years are
shown and the moments lie in the same second.  Where years have four digits and no sign, texts come one
before the other as the seconds do. -/
theorem timestamp_tells (milliseconds milliseconds' : ℤ) :
    (IsShown milliseconds → ∃ moment : Moment, moment.IsAt (milliseconds / 1000) ∧
      IsStamp moment (timestamp milliseconds).toList) ∧
    (¬ IsShown milliseconds → timestamp milliseconds = toString milliseconds) ∧
    (timestamp milliseconds = timestamp milliseconds' ↔
      milliseconds = milliseconds' ∨ IsShown milliseconds ∧ IsShown milliseconds' ∧
        milliseconds / 1000 = milliseconds' / 1000) ∧
    (IsInYears 0 9999 milliseconds → IsInYears 0 9999 milliseconds' →
      (timestamp milliseconds < timestamp milliseconds' ↔
        milliseconds / 1000 < milliseconds' / 1000)) := by
  refine ⟨fun h => ?_, timestamp_of_not_isShown, timestamp_eq_iff, timestamp_lt_iff⟩
  have hat := Moment.isAt_ofSeconds (milliseconds / 1000)
  refine ⟨_, hat, ?_⟩
  rw [timestamp_of_isShown h, String.toList_ofList]
  exact hat.isStamp_text

/-- The last millisecond of 1969 has a stamp, which comes before that of the last millisecond of the
year 9999; the last millisecond before the least year that is shown has a numeral. -/
theorem timestamp_tells_last_of_1969 :
    IsShown (-1) ∧ ¬ IsShown (-8334601228800001) ∧ IsInYears 0 9999 (-1) ∧
      IsInYears 0 9999 253402300799999 ∧
      (∃ moment : Moment, moment.IsAt (-1) ∧ IsStamp moment (timestamp (-1)).toList) ∧
      timestamp (-8334601228800001) = "-8334601228800001" ∧
      timestamp (-1) < timestamp 253402300799999 := by
  have hshown : IsShown (-1) := isInYears_iff_bounds.mpr (by decide)
  have hplain : IsInYears 0 9999 (-1) := isInYears_iff_bounds.mpr (by decide)
  have hlast : IsInYears 0 9999 253402300799999 := isInYears_iff_bounds.mpr (by decide)
  have hnot : ¬ IsShown (-8334601228800001) :=
    fun h => absurd (isInYears_iff_bounds.mp h) (by decide)
  refine ⟨hshown, hnot, hplain, hlast, ?_, ?_, ?_⟩
  · exact (timestamp_tells (-1) 0).1 hshown
  · exact ((timestamp_tells (-8334601228800001) 0).2.1 hnot).trans (by decide)
  · exact ((timestamp_tells (-1) 253402300799999).2.2.2 hplain hlast).mpr (by decide)

/-- Beyond the last year that is shown, two moments of one second have two texts. -/
theorem timestamp_ne_within_second :
    ¬ (timestamp 9223372036854775806 = timestamp 9223372036854775807 ↔
      (9223372036854775806 : ℤ) / 1000 = 9223372036854775807 / 1000) := by
  intro h
  have hsame := timestamp_eq_iff.mp (h.mpr (by decide))
  rcases hsame with heq | ⟨hshown, -, -⟩
  · exact absurd heq (by decide)
  · exact absurd (isInYears_iff_bounds.mp hshown) (by decide)

end Timestamps

end Abacus.Calendar
