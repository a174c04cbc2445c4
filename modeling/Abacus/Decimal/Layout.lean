import Abacus.Decimal.Shortest

/-!
# Layout — how the digits of a number are set out

Two forms: positional, where zeros fill the places up to the point, and exponential, with one
digit before the point and a power of ten.  The texts of a double are built from the two.
-/

namespace Abacus.Decimal

/-- Zeros. -/
def zeros (n : Nat) : List Char :=
  List.replicate n '0'

/-- All places written out: `1500`, `1.5`, `0.0015`. -/
def positional (d : Decimal) : List Char :=
  let digits := numeral d.digits
  if 0 ≤ d.exponent then digits ++ zeros d.exponent.toNat
  else
    let places := (-d.exponent).toNat
    if places < digits.length then
      digits.take (digits.length - places) ++ '.' :: digits.drop (digits.length - places)
    else '0' :: '.' :: zeros (places - digits.length) ++ digits

/-- The power of ten of the first digit. -/
def leading (d : Decimal) : Int :=
  (numeral d.digits).length - 1 + d.exponent

/-- One digit before the point, the others after it, and the power of ten, with its plus sign if
asked for: `1.5e-3`, `1e+16`. -/
def exponential (plus : Bool) (d : Decimal) : List Char :=
  let mantissa := match numeral d.digits with
    | first :: second :: rest => first :: '.' :: second :: rest
    | digits => digits
  let sign := if plus && 0 ≤ d.leading then ['+'] else []
  mantissa ++ 'e' :: sign ++ signedNumeral d.leading

/-- The exponential form of a value of zero: `0e0`, `0.00e0`. -/
def exponentialZero (places : Nat) : List Char :=
  (if places = 0 then ['0'] else '0' :: '.' :: zeros places) ++ ['e', '0']

end Abacus.Decimal

namespace Abacus.Double

open Abacus.Decimal

/-- The sign of a number in front of its digits. -/
def withSign (negative : Bool) (digits : List Char) : List Char :=
  if negative then '-' :: digits else digits

/-- The shortest positional text, never with an exponent; half-way between two the greater one
is taken. -/
def plain : Double → String
  | .nan => "NaN"
  | .infinite negative => String.ofList (withSign negative ['i', 'n', 'f'])
  | .finite negative m => String.ofList (withSign negative (shortest .up m).positional)

/-- The text in exponential form with `places` digits after the point. -/
def exponential (plus : Bool) (places : Nat) : Double → String
  | .nan => "NaN"
  | .infinite negative => String.ofList (withSign negative ['i', 'n', 'f'])
  | .finite negative m =>
      let digits := if m.index = 0 then exponentialZero places
        else (rounded places m).exponential plus
      String.ofList (withSign negative digits)

/-- A positional text that shows a point. -/
def withPoint (digits : List Char) : List Char :=
  if digits.contains '.' then digits else digits ++ ['.', '0']

/-- The shortest text that shows a point or an exponent: positional where the power of ten of
the first digit is from `least` up to `15`. -/
def pointed (tie : Tie) (least : Int) (plus : Bool) (negative : Bool) (m : Magnitude) : String :=
  let d := shortest tie m
  let digits := if least ≤ d.leading && d.leading < 16 then withPoint d.positional
    else d.exponential plus
  String.ofList (withSign negative digits)

/-- The text of a number in a notice. -/
def noted : Double → String
  | .nan => "NaN"
  | .infinite negative => String.ofList (withSign negative ['i', 'n', 'f'])
  | .finite negative m => pointed .up (-4) false negative m

end Abacus.Double
