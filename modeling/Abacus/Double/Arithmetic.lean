import Abacus.Double.Rounding

/-!
# Arithmetic — exact on units, then rounded once

Sum, difference, product, quotient and square root, each the double nearest to the exact
result, with the IEEE 754 rules for zeros, infinities and not-a-number; and rounding to a whole
number with halves away from zero, which is exact.
-/

namespace Abacus.Double

/-- A finite value as a signed number of units. -/
def signedUnits (negative : Bool) (m : Magnitude) : Int :=
  if negative then -(Magnitude.units m.index : Int) else Magnitude.units m.index

/-- The sum of two finite values.  A sum of exactly zero is negative only for two negative
zeros. -/
def addFinite (negative : Bool) (m : Magnitude) (negative' : Bool) (m' : Magnitude) : Double :=
  let sum := signedUnits negative m + signedUnits negative' m'
  if sum = 0 then zero (negative && negative') else round (sum < 0) sum.natAbs 1

/-- Sum. -/
def add : Double → Double → Double
  | .nan, _ => .nan
  | _, .nan => .nan
  | .infinite s, .infinite s' => if s = s' then .infinite s else .nan
  | .infinite s, .finite _ _ => .infinite s
  | .finite _ _, .infinite s => .infinite s
  | .finite s m, .finite s' m' => addFinite s m s' m'

/-- Difference. -/
def sub (x y : Double) : Double :=
  add x y.negate

/-- Product. -/
def mul : Double → Double → Double
  | .nan, _ => .nan
  | _, .nan => .nan
  | .infinite s, .infinite s' => .infinite (s != s')
  | .infinite s, .finite s' m => if m.index = 0 then .nan else .infinite (s != s')
  | .finite s m, .infinite s' => if m.index = 0 then .nan else .infinite (s != s')
  | .finite s m, .finite s' m' =>
      round (s != s') (Magnitude.units m.index * Magnitude.units m'.index) Magnitude.one

/-- Quotient.  A finite value over zero is infinite, zero over zero is not a number. -/
def div : Double → Double → Double
  | .nan, _ => .nan
  | _, .nan => .nan
  | .infinite _, .infinite _ => .nan
  | .infinite s, .finite s' _ => .infinite (s != s')
  | .finite s _, .infinite s' => zero (s != s')
  | .finite s m, .finite s' m' =>
      if m'.index = 0 then if m.index = 0 then .nan else .infinite (s != s')
      else round (s != s') (Magnitude.units m.index * Magnitude.one) (Magnitude.units m'.index)

/-- The largest number whose square is at most `n`, found a binary place of the root at a time. -/
def wholeRoot (n : Nat) : Nat :=
  if n = 0 then 0
  else
    let root := 2 * wholeRoot (n / 4)
    if (root + 1) * (root + 1) ≤ n then root + 1 else root
termination_by n
decreasing_by omega

/-- Square root; a zero keeps its sign, and a value below zero has none.  The whole root has far
more places than a double, so one more half says all about the places after them. -/
def sqrt : Double → Double
  | .nan => .nan
  | .infinite negative => if negative then .nan else .infinite false
  | .finite negative m =>
      if m.index = 0 then .finite negative m
      else if negative then .nan
      else
        let square := Magnitude.units m.index * Magnitude.one
        let root := wholeRoot square
        round false (2 * root + if root * root = square then 0 else 1) 2

/-- The nearest whole number, halves away from zero.  A value without a fractional part, as all
large ones are, stays as it is. -/
def roundWhole : Double → Double
  | .finite negative m =>
      let whole := (2 * Magnitude.units m.index + Magnitude.one) / (2 * Magnitude.one)
      round negative (whole * Magnitude.one) 1
  | x => x

/-- The power `base ^ n` by repeated squaring, rounding after each product: the product for the
low binary place of the exponent is made first. -/
def powNat (base : Double) (n : Nat) : Double :=
  go base n (ofNat 1)
where
  /-- `acc * base ^ n`. -/
  go (base : Double) (n : Nat) (acc : Double) : Double :=
    if h : n = 0 then acc
    else
      let acc := if n % 2 = 1 then mul acc base else acc
      if n / 2 = 0 then acc else go (mul base base) (n / 2) acc
  termination_by n
  decreasing_by omega

instance : Neg Double := ⟨negate⟩
instance : Add Double := ⟨add⟩
instance : Sub Double := ⟨sub⟩
instance : Mul Double := ⟨mul⟩
instance : Div Double := ⟨div⟩

/-- The two values have magnitudes in strictly increasing order; not-a-number has none. -/
def magnitudeLt : Double → Double → Bool
  | .finite _ m, .finite _ m' => m.index < m'.index
  | .finite _ _, .infinite _ => true
  | _, _ => false

end Abacus.Double
