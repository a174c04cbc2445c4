import Abacus.Double.Basic

/-!
# Elementary functions — the machine's sine, cosine, tangent, logarithms and powers

These are the mathematical library's own approximations; everything else about doubles is
computed exactly and rounded.  The bits of a value go in and out unchanged.
-/

namespace Abacus.Double

/-- The machine's number with the same bits. -/
def toMachine (x : Double) : Float :=
  Float.ofBits (UInt64.ofNat x.toBits)

/-- The value of a machine number. -/
def ofMachine (x : Float) : Double :=
  ofBits x.toBits.toNat

/-- Sine of an angle in radians. -/
def sin (x : Double) : Double := ofMachine (Float.sin x.toMachine)

/-- Cosine of an angle in radians. -/
def cos (x : Double) : Double := ofMachine (Float.cos x.toMachine)

/-- Tangent of an angle in radians. -/
def tan (x : Double) : Double := ofMachine (Float.tan x.toMachine)

/-- Logarithm to base ten. -/
def log10 (x : Double) : Double := ofMachine (Float.log10 x.toMachine)

/-- Natural logarithm. -/
def ln (x : Double) : Double := ofMachine (Float.log x.toMachine)

/-- Exponential. -/
def exp (x : Double) : Double := ofMachine (Float.exp x.toMachine)

/-- Power. -/
def pow (x y : Double) : Double := ofMachine (Float.pow x.toMachine y.toMachine)

end Abacus.Double
