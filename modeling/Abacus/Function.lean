import Abacus.Double.Arithmetic
import Abacus.Double.Elementary
import Abacus.Expression.Token
import Abacus.Refusal

/-!
# Functions — the eight scientific functions and the four operations on two numbers

A function is named in any letter case.  Arguments must be finite, must lie in the function's
domain, and the result must be finite.
-/

namespace Abacus

/-- The scientific functions. -/
inductive Function where
  | sin
  | cos
  | tan
  | log
  | ln
  | sqrt
  | pow
  | exp
  deriving DecidableEq

namespace Function

/-- All functions, in the order in which they are listed to callers. -/
def all : List Function :=
  [.sin, .cos, .tan, .log, .ln, .sqrt, .pow, .exp]

/-- The name of the function, in lower case. -/
def name : Function → String
  | .sin => "sin"
  | .cos => "cos"
  | .tan => "tan"
  | .log => "log"
  | .ln => "ln"
  | .sqrt => "sqrt"
  | .pow => "pow"
  | .exp => "exp"

/-- The function with the given name, whatever the case of its letters.  The names are ASCII, and
no letter outside of ASCII has one of their letters as its lower case. -/
def ofName? (name : String) : Option Function :=
  let lower := name.toList.map Char.toLower
  all.find? fun f => f.name.toList == lower

/-- The value of the function at a finite argument; only the power looks at the second. -/
def apply (f : Function) (value : Double) (second : Option Double) : Except Refusal Double :=
  match f with
  | .sin => .ok value.sin
  | .cos => .ok value.cos
  | .tan => .ok value.tan
  | .exp => .ok value.exp
  | .log =>
      if value.isAboveZero then .ok value.log10
      else .error (.domain "Logarithm of non-positive number")
  | .ln =>
      if value.isAboveZero then .ok value.ln
      else .error (.domain "Natural logarithm of non-positive number")
  | .sqrt =>
      if value.isBelowZero then .error (.domain "Square root of negative number")
      else .ok value.sqrt
  | .pow =>
      match second with
      | some exponent =>
          if exponent.isFinite then .ok (value.pow exponent) else .error (.missingOperand "Power")
      | none => .error (.missingOperand "Power")

/-- Every function is found under its own name. -/
theorem ofName?_name (f : Function) : ofName? f.name = some f := by
  cases f <;> decide

end Function

/-- A finite result, or a refusal. -/
def finiteResult (value : Double) : Except Refusal Double :=
  if value.isFinite then .ok value else .error (.evaluation "Invalid calculation result")

/-- A scientific function, named by its text, of a value. -/
def computeFunction (value : Double) (operation : String) (second : Option Double) :
    Except Refusal Double :=
  if !value.isFinite then .error (.validation "Invalid value: must be a number")
  else
    match Function.ofName? operation with
    | none => .error (.unsupportedOperation operation)
    | some f => f.apply value second >>= finiteResult

/-- The operator with the given text. -/
def Operator.ofText? (text : String) : Option Operator :=
  match text.toList with
  | [c] => Operator.ofChar? c
  | _ => none

/-- One of the four operations, named by its text, on two numbers. -/
def computeBasic (a b : Double) (operation : String) : Except Refusal Double :=
  if !a.isFinite || !b.isFinite then .error (.validation "Invalid operands: must be numbers")
  else
    match Operator.ofText? operation with
    | none => .error (.invalidOperation operation)
    | some op =>
        if op == .over && b.isZero then .error .divisionByZero else finiteResult (op.apply a b)

end Abacus
