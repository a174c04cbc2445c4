import Abacus.Decimal.Basic

/-!
# Calendar — a moment as a date and a time of day

Moments are counted in milliseconds from the start of 1970.  The calendar is the Gregorian one,
carried on in both directions, with a year zero.  A day is found by counting from the first of
March of year zero, so that the leap day is the last day of a year and four hundred years are
always `146097` days.
-/

namespace Abacus.Calendar

/-- A day of the calendar. -/
structure Date where
  year : Int
  month : Nat
  day : Nat
  deriving DecidableEq

/-- The year has a leap day. -/
def isLeap (year : Int) : Bool :=
  year % 4 == 0 && (year % 100 != 0 || year % 400 == 0)

/-- How many days the month has. -/
def monthLength (year : Int) (month : Nat) : Nat :=
  if month = 2 then if isLeap year then 29 else 28
  else if month = 4 ∨ month = 6 ∨ month = 9 ∨ month = 11 then 30
  else 31

/-- The month and the day are those of a day that there is. -/
def Date.IsValid (date : Date) : Prop :=
  1 ≤ date.month ∧ date.month ≤ 12 ∧ 1 ≤ date.day ∧
    date.day ≤ monthLength date.year date.month

/-- Days from the first of March of year zero to the first of January of 1970. -/
def epochDay : Int := 719468

/-- The number of a day, counted from the first of January of 1970. -/
def dayNumber (date : Date) : Int :=
  let year := if date.month ≤ 2 then date.year - 1 else date.year
  let month := (date.month + 9) % 12
  365 * year + year / 4 - year / 100 + year / 400 + (153 * month + 2) / 5 + date.day - 1 - epochDay

/-- The day with a given number. -/
def ofDayNumber (number : Int) : Date :=
  let shifted := number + epochDay
  let era := shifted / 146097
  let dayOfEra := (shifted % 146097).toNat
  let yearOfEra := (dayOfEra - dayOfEra / 1460 + dayOfEra / 36524 - dayOfEra / 146096) / 365
  let dayOfYear := dayOfEra - (365 * yearOfEra + yearOfEra / 4 - yearOfEra / 100)
  let month := (5 * dayOfYear + 2) / 153
  let day := dayOfYear - (153 * month + 2) / 5 + 1
  let year := yearOfEra + era * 400
  if month < 10 then ⟨year, month + 3, day⟩ else ⟨year + 1, month - 9, day⟩

/-- The least and the greatest year that are shown as dates. -/
def leastYear : Int := -262143

/-- The greatest year that is shown as a date. -/
def greatestYear : Int := 262142

/-- A numeral with at least the given number of digits. -/
def padded (width n : Nat) : List Char :=
  let digits := Decimal.numeral n
  List.replicate (width - digits.length) '0' ++ digits

/-- A year with at least four digits, and with a sign unless it lies between 0 and 9999. -/
def yearText (year : Int) : List Char :=
  if 0 ≤ year && year ≤ 9999 then padded 4 year.toNat
  else if year < 0 then '-' :: padded 4 year.natAbs
  else '+' :: padded 4 year.natAbs

/-- A day, as year, month and day. -/
def Date.text (date : Date) : List Char :=
  yearText date.year ++ '-' :: padded 2 date.month ++ '-' :: padded 2 date.day

/-- The time of day after a number of seconds from midnight. -/
def clockText (second : Nat) : List Char :=
  padded 2 (second / 3600) ++ ':' :: padded 2 (second / 60 % 60) ++ ':' :: padded 2 (second % 60)

/-- A moment as a date and a time of day in universal time; as a plain number when its year is
not shown. -/
def timestamp (milliseconds : Int) : String :=
  let seconds := milliseconds / 1000
  let date := ofDayNumber (seconds / 86400)
  if leastYear ≤ date.year && date.year ≤ greatestYear then
    String.ofList (date.text ++ ' ' :: clockText (seconds % 86400).toNat ++ " UTC".toList)
  else String.ofList (Decimal.signedNumeral milliseconds)

end Abacus.Calendar
