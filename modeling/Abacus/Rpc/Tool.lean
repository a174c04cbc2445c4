import Abacus.Function
import Abacus.Mode
import Abacus.Rpc.Schema

/-!
# Tools — the procedures that are offered to a client
-/

namespace Abacus.Rpc

open Json (Value)

/-- The tools. -/
inductive Tool where
  | calculate
  | scientific
  | history
  | cleanup
  deriving DecidableEq

namespace Tool

/-- All tools, in the order in which they are listed. -/
def all : List Tool :=
  [.calculate, .scientific, .history, .cleanup]

/-- The name of a tool. -/
def name : Tool → String
  | .calculate => "calculate"
  | .scientific => "calculate_scientific"
  | .history => "calculation_history"
  | .cleanup => "cleanup_history"

/-- The tool with the given name. -/
def ofName? (name : String) : Option Tool :=
  all.find? fun tool => tool.name == name

/-- What a tool does, in words. -/
def description : Tool → String
  | .calculate =>
      "Evaluate an arithmetic expression using + - * /, parentheses and decimal numbers. " ++
        "Returns the numeric result, the formatted result (10 decimal places at most, " ++
        "exponential notation for very large or very small magnitudes) and the mode. " ++
        "The calculation is recorded in history."
  | .scientific =>
      "Apply a scientific function to a number. Supported operations: sin, cos, tan (radians), " ++
        "log (base 10), ln, sqrt, pow (requires secondValue as the exponent) and exp. " ++
        "The calculation is recorded in history as e.g. 'pow(2, 10)'."
  | .history => "List calculations from the last two days, newest first."
  | .cleanup =>
      "Delete calculations older than two days and return how many were removed."

/-- What the arguments of a tool look like. -/
def schema : Tool → Schema
  | .calculate =>
      ⟨[⟨"expression", [.text], "Arithmetic expression, e.g. '(2+3)*4'", []⟩,
          ⟨"mode", [.text], "Mode recorded with the calculation (default: standard)",
            [Mode.standard.name, Mode.scientific.name]⟩],
        ["expression"]⟩
  | .scientific =>
      ⟨[⟨"value", [.number, .text], "Input value", []⟩,
          ⟨"operation", [.text], "Function name", Function.all.map Function.name⟩,
          ⟨"secondValue", [.number, .text], "Exponent for pow", []⟩],
        ["value", "operation"]⟩
  | .history =>
      ⟨[⟨"limit", [.number], "Maximum number of calculations to return (default: 50)", []⟩], []⟩
  | .cleanup => ⟨[], []⟩

/-- A tool, as it is listed. -/
def toJson (tool : Tool) : Value :=
  .object [("name", .text tool.name), ("description", .text tool.description),
    ("inputSchema", tool.schema.toJson)]

/-- Every tool is found under its own name. -/
theorem ofName?_name (tool : Tool) : ofName? tool.name = some tool := by
  cases tool <;> decide

end Tool

end Abacus.Rpc
