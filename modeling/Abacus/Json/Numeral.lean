import Abacus.Json.Value
import Abacus.Decimal.Basic
import Abacus.Double.Arithmetic

/-!
# Numerals — how a number is read from JSON

An integer that fits into sixty-four bits is kept exactly.  Any other number becomes a double in
two roundings: the leading digits that fit into sixty-four bits are rounded to a double, and that
is multiplied or divided by a rounded power of ten.  The result may be a little off the nearest
double.  A number past all doubles is out of range.
-/

namespace Abacus.Json

/-- A number as written: a sign, digits, and optionally a fraction and an exponent. -/
structure Numeral where
  negative : Bool
  whole : List Char
  fraction : Option (List Char)
  exponent : Option (Bool × List Char)
  deriving DecidableEq

namespace Numeral

/-- The digits at the start of a text, at least one, and the text after them. -/
def readDigits (text : List Char) : Option (List Char × List Char) :=
  let digits := text.takeWhile Char.isDigit
  if digits.isEmpty then none else some (digits, text.dropWhile Char.isDigit)

/-- The digits before the point: a single zero, or digits that do not begin with one. -/
def readWhole (text : List Char) : Option (List Char × List Char) := do
  let (digits, rest) ← readDigits text
  match digits with
  | '0' :: _ :: _ => none
  | _ => some (digits, rest)

/-- A fraction, if there is a point; then it has at least one digit. -/
def readFraction : List Char → Option (Option (List Char) × List Char)
  | '.' :: rest => do
      let (digits, rest) ← readDigits rest
      return (some digits, rest)
  | text => some (none, text)

/-- An exponent, if there is its letter; then it has at least one digit. -/
def readExponent (text : List Char) : Option (Option (Bool × List Char) × List Char) :=
  match text with
  | mark :: rest =>
      if mark == 'e' || mark == 'E' then do
        let (negative, unsigned) := match rest with
          | '-' :: rest => (true, rest)
          | '+' :: rest => (false, rest)
          | _ => (false, rest)
        let (digits, rest) ← readDigits unsigned
        return (some (negative, digits), rest)
      else some (none, text)
  | [] => some (none, [])

/-- A number at the start of a text, and the text after it. -/
def read (text : List Char) : Option (Numeral × List Char) := do
  let (negative, unsigned) := match text with
    | '-' :: rest => (true, rest)
    | _ => (false, text)
  let (whole, rest) ← readWhole unsigned
  let (fraction, rest) ← readFraction rest
  let (exponent, rest) ← readExponent rest
  return (⟨negative, whole, fraction, exponent⟩, rest)

/-- The numbers that fit into sixty-four bits are below this one. -/
def wordLimit : Nat := 0x10000000000000000

/-- Take over digits, after those already in `significand`, for as long as the number fits into
sixty-four bits; and how many digits are left. -/
def accumulate (significand : Nat) : List Char → Nat × Nat
  | [] => (significand, 0)
  | c :: rest =>
      let next := 10 * significand + (c.toNat - '0'.toNat)
      if next < wordLimit then accumulate next rest else (significand, rest.length + 1)

/-- The greatest exponent that is looked at. -/
def exponentLimit : Nat := 0x7FFFFFFF

/-- The rounded power `10 ^ n`. -/
def tenPower (n : Nat) : Double :=
  Decimal.toDouble false ⟨1, n⟩

/-- `x * 10 ^ exponent`, the power taken in steps that are doubles themselves; nothing when the
product is past all doubles. -/
def scale (x : Double) (exponent : Int) : Option Double :=
  if exponent.natAbs ≤ 308 then
    if 0 ≤ exponent then
      let product := x * tenPower exponent.natAbs
      if product.isFinite then some product else none
    else some (x / tenPower exponent.natAbs)
  else if x.isZero then some x
  else if 0 ≤ exponent then none
  else scale (x / tenPower 308) (exponent + 308)
termination_by exponent.natAbs
decreasing_by omega

/-- The double that a number with a fraction, an exponent or too many digits becomes. -/
def toDouble? (n : Numeral) : Option Double :=
  let (significand, left) := accumulate 0 n.whole
  let fraction := n.fraction.getD []
  let (significand, leftInFraction) := accumulate significand fraction
  let places : Int := left - (fraction.length - leftInFraction : Nat)
  let magnitude := match n.exponent with
    | none => scale (.ofNat significand) places
    | some (below, digits) =>
        let exponent := Decimal.valueOf digits
        if exponentLimit < exponent then
          if significand ≠ 0 && !below then none else some (.zero false)
        else
          let total := if below then places - exponent else places + exponent
          scale (.ofNat significand) (max (-exponentLimit - 1) (min exponentLimit total))
  magnitude.map fun x => if n.negative then -x else x

/-- The number that a numeral denotes; nothing when it is out of range.  Minus zero, and a
negative integer of more than sixty-four bits, are doubles. -/
def toNumber? (n : Numeral) : Option Number :=
  match n.fraction, n.exponent, accumulate 0 n.whole with
  | none, none, (significand, 0) =>
      if !n.negative then some (.integer significand)
      else if significand ≠ 0 && significand ≤ 0x8000000000000000 then some (.integer (-significand))
      else some (.double (-.ofNat significand))
  | _, _, _ => n.toDouble?.map .double

end Numeral

end Abacus.Json
