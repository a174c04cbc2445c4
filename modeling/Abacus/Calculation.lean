import Abacus.Display
import Abacus.Expression.Check
import Abacus.Mode
import Abacus.Refusal

/-!
# Calculations — what is asked for, what is answered, what is kept

A calculation keeps the text it was asked by.  A scientific call has no text of its own and gets
a label, `name(value)` or `name(value, second)`.
-/

namespace Abacus

/-- What is asked for. -/
inductive Request where
  | expression (text : String) (mode : Mode)
  | scientific (value : Double) (operation : String) (second : Option Double)
  deriving DecidableEq

/-- A calculation with its result. -/
structure Calculation where
  expression : String
  result : Double
  formatted : String
  mode : Mode
  deriving DecidableEq

/-- A calculation on its way into the history, with its result as it was shown. -/
structure Entry where
  expression : String
  result : String
  mode : Mode
  deriving DecidableEq

namespace Calculation

/-- The calculation of a text with its result. -/
def ofResult (expression : String) (result : Double) (mode : Mode) : Calculation :=
  ⟨expression, result, Display.result result, mode⟩

/-- What the history keeps of a calculation. -/
def entry (c : Calculation) : Entry :=
  ⟨c.expression, c.formatted, c.mode⟩

/-- The calculation on one line. -/
def line (c : Calculation) : String :=
  c.expression ++ " = " ++ c.formatted

/-- The text under which a scientific call is kept. -/
def label (operation : String) (value : Double) (second : Option Double) : String :=
  match second with
  | some second => operation ++ "(" ++ value.plain ++ ", " ++ second.plain ++ ")"
  | none => operation ++ "(" ++ value.plain ++ ")"

end Calculation

/-- The outcome of the check of an expression, as it is sent. -/
structure Verdict where
  isValid : Bool
  error : Option String
  deriving DecidableEq

namespace Verdict

/-- The outcome of the check of a text. -/
def ofText (text : String) : Verdict :=
  match Expression.objection text with
  | none => ⟨true, none⟩
  | some objection => ⟨false, some objection.message⟩

/-- An outcome that is not valid as a refusal; one without a text has a text of its own. -/
def toResult (verdict : Verdict) : Except Refusal Unit :=
  if verdict.isValid then .ok ()
  else .error (.validation (verdict.error.getD "Invalid expression"))

end Verdict

end Abacus
