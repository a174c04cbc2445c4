import Abacus.Double.Basic

/-!
# Rounding — the double nearest to an exact quotient

A magnitude is asked for as a quotient of whole numbers, counted in units.  The answer is the
nearest one; half-way between two the one with the even number is taken.  What lies half-way
past the largest finite magnitude, or further, is infinite.
-/

namespace Abacus

namespace Magnitude

/-- The number of the nearest magnitude to `num / den` units, the even one of two that are
equally near.  Whole quotients of more than fifty-three bits are cut to fifty-three first: the
number of places cut off counts the binades below, and what is cut off decides the rounding. -/
def nearest (num den : Nat) : Nat :=
  let cut := (num / den).log2 - 52
  let gap := den <<< cut
  let below := cut * binade + num / gap
  let beyond := num % gap
  if 2 * beyond < gap then below
  else if gap < 2 * beyond then below + 1
  else if below % 2 = 0 then below
  else below + 1

/-- A whole number of units that has at most fifty-three bits is its own number. -/
theorem nearest_one_of_lt {n : Nat} (h : n < 2 * binade) : nearest n 1 = n := by
  have cut : n.log2 - 52 = 0 := by
    rcases Nat.eq_zero_or_pos n with rfl | positive
    · rfl
    · have : n.log2 < 53 := (Nat.log2_lt (Nat.ne_of_gt positive)).mpr h
      omega
  simp [nearest, cut, Nat.mod_one]

end Magnitude

namespace Double

/-- The double nearest to `num / den` units, with the given sign. -/
def round (negative : Bool) (num den : Nat) : Double :=
  let index := Magnitude.nearest num den
  if h : index < Magnitude.count then .finite negative ⟨index, h⟩ else .infinite negative

/-- The double nearest to a whole number. -/
def ofNat (n : Nat) : Double :=
  round false (n * Magnitude.one) 1

/-- The double nearest to an integer; zero is positive. -/
def ofInt (n : Int) : Double :=
  round (n < 0) (n.natAbs * Magnitude.one) 1

end Double

end Abacus
