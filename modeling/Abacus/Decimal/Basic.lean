import Abacus.Double.Rounding

/-!
# Decimal — whole digits times a power of ten

The form in which numbers are read and written.  A decimal becomes a double by one rounding of
its exact value.
-/

namespace Abacus

/-- The number `digits * 10 ^ exponent`. -/
structure Decimal where
  digits : Nat
  exponent : Int
  deriving DecidableEq

namespace Decimal

/-- The decimal digits of a whole number, without leading zeros. -/
def numeral (n : Nat) : List Char :=
  Nat.toDigits 10 n

/-- The whole number that a run of ASCII digits denotes. -/
def valueOf (digits : List Char) : Nat :=
  Nat.ofDigitChars 10 digits 0

/-- An integer in decimal, with a sign only below zero. -/
def signedNumeral (n : Int) : List Char :=
  if n < 0 then '-' :: numeral n.natAbs else numeral n.natAbs

/-- The decimal written as digits, a point, more digits, and a power of ten. -/
def ofParts (whole fraction : List Char) (exponent : Int) : Decimal :=
  ⟨valueOf (whole ++ fraction), exponent - fraction.length⟩

/-- The decimal as a quotient of whole numbers. -/
def quotient (d : Decimal) : Nat × Nat :=
  if 0 ≤ d.exponent then (d.digits * Nat.pow 10 d.exponent.toNat, 1)
  else (d.digits, Nat.pow 10 (-d.exponent).toNat)

/-- The double nearest to the decimal, with the given sign.  A value of `10 ^ 310` or more is
past every finite double and one below `10 ^ -330` is nearest to zero; neither is expanded. -/
def toDouble (negative : Bool) (d : Decimal) : Double :=
  let places : Int := (numeral d.digits).length + d.exponent
  if d.digits = 0 || places < -330 then .zero negative
  else if 310 < places then .infinite negative
  else
    let (num, den) := d.quotient
    .round negative (num * Magnitude.one) den

/-- Reading the digits of a whole number gives it back. -/
@[simp] theorem valueOf_numeral (n : Nat) : valueOf (numeral n) = n :=
  Nat.ofDigitChars_ten_toDigits

/-- A numeral consists of ASCII digits. -/
theorem isDigit_of_mem_numeral {n : Nat} {c : Char} (h : c ∈ numeral n) : c.isDigit = true :=
  Nat.isDigit_of_mem_toDigits (by decide) (by decide) h

end Decimal

end Abacus
