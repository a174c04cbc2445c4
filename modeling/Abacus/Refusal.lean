/-!
# Refusal — why there is no result

The causes that a caller is told about, each with the text it carries.  A refusal is sent and
received as it is, so it may carry any text.
-/

namespace Abacus

/-- Why a calculation has no result. -/
inductive Refusal where
  /-- The input does not have the right form. -/
  | validation (message : String)
  | divisionByZero
  /-- The function is not defined at this value. -/
  | domain (message : String)
  /-- The named operation needs a second value. -/
  | missingOperand (operation : String)
  /-- The function is none of the known ones. -/
  | unsupportedOperation (operation : String)
  /-- The operator is none of the four. -/
  | invalidOperation (operation : String)
  /-- The expression has no value, or no finite one. -/
  | evaluation (message : String)
  deriving DecidableEq

namespace Refusal

/-- The wording of a refusal. -/
def message : Refusal → String
  | .validation message => message
  | .divisionByZero => "Division by zero"
  | .domain message => message
  | .missingOperand operation => operation ++ " operation requires second value"
  | .unsupportedOperation operation => "Invalid scientific operation: " ++ operation
  | .invalidOperation operation => "Invalid operation: " ++ operation
  | .evaluation message => message

/-- The result is undefined in the arithmetic of real numbers. -/
def isDomain : Refusal → Bool
  | .divisionByZero | .domain _ => true
  | _ => false

/-- The name under which the refusal is sent. -/
def kind : Refusal → String
  | .validation _ => "Validation"
  | .divisionByZero => "DivisionByZero"
  | .domain _ => "Domain"
  | .missingOperand _ => "MissingOperand"
  | .unsupportedOperation _ => "UnsupportedOperation"
  | .invalidOperation _ => "InvalidOperation"
  | .evaluation _ => "Evaluation"

end Refusal

end Abacus
