/-!
# Double — the numbers a calculation is made of

The values of the IEEE 754 format binary64: not-a-number, two infinities, and signed magnitudes.
The finite magnitudes are numbered in increasing order, so that order is the order of the
numbers and the neighbours of a magnitude are one step away.  Number `i` stands for
`Magnitude.units i` units, the unit being the least positive magnitude, `2 ^ -1074`: up to
`2 ^ 53` the magnitudes are the whole numbers of units, after that the gap doubles every
`2 ^ 52` of them.

An operation is said exactly, on whole numbers of units, and then rounded once
(`Abacus.Double.Rounding`).
-/

namespace Abacus

namespace Magnitude

/-- How many magnitudes share one gap to their neighbour. -/
def binade : Nat := 0x10000000000000

/-- How many finite magnitudes there are. -/
def count : Nat := 2047 * binade

/-- How many units the magnitude numbered `i` is.  Past the finite ones the rule goes on, so the
first number that is too large stands for the value at which rounding overflows. -/
def units (i : Nat) : Nat :=
  if i < binade then i else (binade + i % binade) <<< (i / binade - 1)

/-- How many units make the number one. -/
def one : Nat := 1 <<< 1074

end Magnitude

/-- A finite magnitude, by its place in the increasing order of all of them. -/
structure Magnitude where
  index : Nat
  bounded : index < Magnitude.count
  deriving DecidableEq

/-- A binary64 value.  There is one not-a-number, and zero has two signs. -/
inductive Double where
  | nan
  | infinite (negative : Bool)
  | finite (negative : Bool) (magnitude : Magnitude)
  deriving DecidableEq

namespace Double

/-- The magnitude of both zeros. -/
def zeroMagnitude : Magnitude :=
  ⟨0, by decide⟩

/-- Zero with the given sign. -/
def zero (negative : Bool) : Double :=
  .finite negative zeroMagnitude

/-- Neither infinite nor not-a-number. -/
def isFinite : Double → Bool
  | .finite _ _ => true
  | _ => false

/-- A zero of either sign. -/
def isZero : Double → Bool
  | .finite _ m => m.index == 0
  | _ => false

/-- Below zero; no zero is, and not-a-number is not. -/
def isBelowZero : Double → Bool
  | .nan => false
  | .infinite negative => negative
  | .finite negative m => negative && m.index != 0

/-- Above zero; no zero is, and not-a-number is not. -/
def isAboveZero : Double → Bool
  | .nan => false
  | .infinite negative => !negative
  | .finite negative m => !negative && m.index != 0

/-- The value with the other sign. -/
def negate : Double → Double
  | .nan => .nan
  | .infinite negative => .infinite !negative
  | .finite negative m => .finite (!negative) m

/-- The bit that is set in values below zero. -/
def signBit : Nat := 0x8000000000000000

/-- The sixty-four bits of the value: sign, exponent and significand, so that the bits below the
sign are the number of the magnitude. -/
def toBits : Double → Nat
  | .nan => 0x7FF8000000000000
  | .infinite negative => (if negative then signBit else 0) + Magnitude.count
  | .finite negative m => (if negative then signBit else 0) + m.index

/-- The value with the given bits; every pattern of a not-a-number is the same value. -/
def ofBits (bits : Nat) : Double :=
  let negative := bits / signBit % 2 == 1
  let index := bits % signBit
  if h : index < Magnitude.count then .finite negative ⟨index, h⟩
  else if index = Magnitude.count then .infinite negative
  else .nan

/-- The bits determine the value. -/
theorem ofBits_toBits (x : Double) : ofBits x.toBits = x := by
  have count_eq : Magnitude.count = 9218868437227405312 := rfl
  cases x with
  | nan => rfl
  | infinite negative => cases negative <;> rfl
  | finite negative m =>
      obtain ⟨index, bounded⟩ := m
      have small : index < signBit := by rw [count_eq] at bounded; unfold signBit; omega
      have recover (bits : Nat) (sign : (bits / signBit % 2 == 1) = negative)
          (rest : bits % signBit = index) : ofBits bits = .finite negative ⟨index, bounded⟩ := by
        subst rest
        unfold ofBits
        rw [sign]
        exact dif_pos bounded
      cases negative with
      | false =>
          apply recover (0 + index)
          · rw [beq_eq_false_iff_ne]
            unfold signBit at small ⊢
            omega
          · unfold signBit at small ⊢
            omega
      | true =>
          apply recover (signBit + index)
          · rw [beq_iff_eq]
            unfold signBit at small ⊢
            omega
          · unfold signBit at small ⊢
            omega

end Double

end Abacus
