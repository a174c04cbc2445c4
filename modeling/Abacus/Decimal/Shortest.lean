import Abacus.Decimal.Basic

/-!
# Digits of a double — the fewest that read back, or as many as are asked for

A finite double owns the interval of numbers that round to it, ends included when its magnitude
has an even number.  Among the decimals of that interval with the fewest digits the nearest one
is taken; a tie between two of them is settled by the caller.  The search asks, for one digit,
two digits and so on, only the two neighbours of the double on the grid of that many digits: if
a point of the grid lies in the interval, one of the two does.  Seventeen digits always suffice.

Where a number of digits is given, the exact value is cut to the nearest, and to the even neighbour
half-way between two.
-/

namespace Abacus.Decimal

/-! ## The fewest digits -/

/-- Which of two equally near decimals is taken. -/
inductive Tie where
  | even
  | up
  deriving DecidableEq

/-- The place of the first significant digit of a positive quotient: the greatest `e` with
`10 ^ e ≤ num / den`. -/
def leadingPlace (num den : Nat) : Int :=
  if den ≤ num then (numeral (num / den)).length - 1
  else -(numeral ((den - 1) / num)).length

/-- The quotient counted in steps of `10 ^ place`. -/
def inSteps (num den : Nat) (place : Int) : Nat × Nat :=
  if 0 ≤ place then (num, den * Nat.pow 10 place.toNat)
  else (num * Nat.pow 10 (-place).toNat, den)

/-- The numbers that round to one magnitude, in half units over `2 * Magnitude.one`. -/
structure Interval where
  low : Nat
  value : Nat
  high : Nat
  closed : Bool

/-- The interval of a positive magnitude: half-way to its two neighbours. -/
def Interval.around (index : Nat) : Interval where
  low := Magnitude.units (index - 1) + Magnitude.units index
  value := 2 * Magnitude.units index
  high := Magnitude.units index + Magnitude.units (index + 1)
  closed := index % 2 == 0

/-- `steps * 10 ^ place` lies in the interval. -/
def Interval.holds (i : Interval) (steps : Nat) (place : Int) : Bool :=
  let (low, step) := inSteps i.low (2 * Magnitude.one) place
  let (high, _) := inSteps i.high (2 * Magnitude.one) place
  let point := steps * step
  if i.closed then low ≤ point && point ≤ high else low < point && point < high

/-- The neighbour of the value on the grid of `10 ^ place` that lies in the interval, the nearer
one if both do. -/
def Interval.onGrid (i : Interval) (tie : Tie) (place : Int) : Option Nat :=
  let (num, step) := inSteps i.value (2 * Magnitude.one) place
  let below := num / step
  let beyond := num % step
  match i.holds below place, i.holds (below + 1) place with
  | false, false => none
  | true, false => some below
  | false, true => some (below + 1)
  | true, true =>
      if 2 * beyond < step then some below
      else if step < 2 * beyond then some (below + 1)
      else match tie with
        | .up => some (below + 1)
        | .even => if below % 2 = 0 then some below else some (below + 1)

/-- Search the grids from the one of `10 ^ place` downwards, at most `grids + 1` of them; on the
last one the value is cut. -/
def Interval.search (i : Interval) (tie : Tie) (place : Int) : (grids : Nat) → Decimal
  | 0 =>
      let (num, step) := inSteps i.value (2 * Magnitude.one) place
      ⟨(i.onGrid tie place).getD (num / step), place⟩
  | grids + 1 =>
      match i.onGrid tie place with
      | some steps => ⟨steps, place⟩
      | none => i.search tie (place - 1) grids

/-- The decimal without the zeros at its end. -/
def stripped (d : Decimal) : Decimal :=
  if h : d.digits ≠ 0 ∧ d.digits % 10 = 0 then stripped ⟨d.digits / 10, d.exponent + 1⟩ else d
termination_by d.digits
decreasing_by
  show d.digits / 10 < d.digits
  omega

/-- The shortest decimal that reads back as the magnitude. -/
def shortest (tie : Tie) (m : Magnitude) : Decimal :=
  if m.index = 0 then ⟨0, 0⟩
  else
    let i := Interval.around m.index
    (i.search tie (leadingPlace i.value (2 * Magnitude.one)) 16).stripped

/-! ## A fixed number of digits -/

/-- The quotient to the nearest whole number, the even one half-way between two. -/
def divideToEven (num den : Nat) : Nat :=
  let below := num / den
  let beyond := num % den
  if 2 * beyond < den then below
  else if den < 2 * beyond then below + 1
  else if below % 2 = 0 then below
  else below + 1

/-- The magnitude with one digit before the point and `places` after it.  Rounding up to the
next power of ten moves the point. -/
def rounded (places : Nat) (m : Magnitude) : Decimal :=
  if m.index = 0 then ⟨0, -places⟩
  else
    let units := Magnitude.units m.index
    let place := leadingPlace units Magnitude.one - places
    let (num, step) := inSteps units Magnitude.one place
    let digits := divideToEven num step
    if digits < Nat.pow 10 (places + 1) then ⟨digits, place⟩ else ⟨Nat.pow 10 places, place + 1⟩

end Abacus.Decimal
