import Abacus.Decimal.Basic

/-!
# Reading decimals — the number at the start of a text

A number is an optional sign, digits with at most one point among, before or after them, and an
optional exponent.  What follows the number is left alone.  Which characters count as digits is
up to the caller; the value needs ASCII digits.
-/

namespace Abacus.Decimal

/-- The parts of a number as written. -/
structure Written where
  negative : Bool
  whole : List Char
  fraction : List Char
  exponentNegative : Bool
  exponent : List Char
  deriving DecidableEq

/-- The value of a number whose digits are ASCII. -/
def Written.toDouble (w : Written) : Double :=
  let power : Int := if w.exponentNegative then -(valueOf w.exponent : Int) else valueOf w.exponent
  (ofParts w.whole w.fraction power).toDouble w.negative

/-- All digits of the number are ASCII digits. -/
def Written.isAscii (w : Written) : Bool :=
  (w.whole ++ w.fraction ++ w.exponent).all Char.isDigit

/-- A sign, if the text starts with one, and the text after it. -/
def readSign : List Char → Bool × List Char
  | '-' :: rest => (true, rest)
  | '+' :: rest => (false, rest)
  | text => (false, text)

/-- The digits before and after the point, with at least one digit, and the text after them. -/
def readPlaces (isDigit : Char → Bool) (text : List Char) :
    Option (List Char × List Char × List Char) :=
  let whole := text.takeWhile isDigit
  match text.dropWhile isDigit with
  | '.' :: rest =>
      let fraction := rest.takeWhile isDigit
      if whole.isEmpty && fraction.isEmpty then none
      else some (whole, fraction, rest.dropWhile isDigit)
  | rest => if whole.isEmpty then none else some (whole, [], rest)

/-- An exponent, if a whole one is next, and the text after it. -/
def readExponent (isDigit : Char → Bool) (text : List Char) : Bool × List Char × List Char :=
  match text with
  | mark :: rest =>
      if mark == 'e' || mark == 'E' then
        let (negative, digits) := readSign rest
        let exponent := digits.takeWhile isDigit
        if exponent.isEmpty then (false, [], text)
        else (negative, exponent, digits.dropWhile isDigit)
      else (false, [], text)
  | [] => (false, [], text)

/-- The longest number at the start of the text, and the text after it. -/
def readWritten (isDigit : Char → Bool) (text : List Char) : Option (Written × List Char) :=
  let (negative, unsigned) := readSign text
  match readPlaces isDigit unsigned with
  | none => none
  | some (whole, fraction, rest) =>
      let (exponentNegative, exponent, rest) := readExponent isDigit rest
      some (⟨negative, whole, fraction, exponentNegative, exponent⟩, rest)

/-- The words for values that have no digits, in any letter case. -/
def readWord (text : List Char) : Option Double :=
  let (negative, word) := readSign text
  let lower := word.map Char.toLower
  if lower == "inf".toList || lower == "infinity".toList then some (.infinite negative)
  else if lower == "nan".toList then some .nan
  else none

/-- The number that makes up the whole text, or one of the words for infinity and
not-a-number. -/
def readDouble (text : List Char) : Option Double :=
  match readWritten Char.isDigit text with
  | some (w, []) => some w.toDouble
  | _ => readWord text

end Abacus.Decimal
