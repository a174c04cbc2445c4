import Abacus.Double.Arithmetic
import Abacus.Decimal.Layout

/-!
# Display — how a result is shown

Large and small magnitudes are shown in exponential form.  The others are rounded to a number of
decimal places, by scaling up, rounding to a whole number and scaling down in double arithmetic,
and shown with as few digits as say the rounded double.
-/

namespace Abacus.Display

/-- Decimal places when none are asked for. -/
def defaultPlaces : Nat := 10

/-- The most decimal places that are shown. -/
def maxPlaces : Nat := 100

/-- Magnitudes above this one, `10 ^ 10`, are shown in exponential form. -/
def largest : Double := Decimal.toDouble false ⟨1, 10⟩

/-- Magnitudes below this one, `10 ^ -10`, are shown in exponential form. -/
def smallest : Double := Decimal.toDouble false ⟨1, -10⟩

/-- The number is too large or too small to be shown with a fixed number of places. -/
def isExtreme (value : Double) : Bool :=
  largest.magnitudeLt value || (!value.isZero && value.magnitudeLt smallest)

/-- The value rounded to a number of decimal places. -/
def toPlaces (places : Nat) (value : Double) : Double :=
  let factor := (Double.ofNat 10).powNat places
  let scaled := value * factor
  if scaled.isFinite && factor.isFinite then scaled.roundWhole / factor else value

/-- The text of a value with at most the given number of decimal places. -/
def withPlaces (places : Nat) (value : Double) : String :=
  let places := min places maxPlaces
  if !value.isFinite then "Error"
  else if isExtreme value then value.exponential true places
  else
    let rounded := toPlaces places value
    if rounded.isZero then "0" else rounded.plain

/-- The text of a result. -/
def result (value : Double) : String :=
  withPlaces defaultPlaces value

end Abacus.Display
