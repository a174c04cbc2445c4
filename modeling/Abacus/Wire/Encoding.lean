import Abacus.Calculation
import Abacus.History.Retention
import Abacus.Json.Writer
import Abacus.Number
import Abacus.Service

/-!
# Encoding — the data of the service as JSON

Each type is written with its fields in a fixed order; a field that is absent is left out.
-/

namespace Abacus

open Json (Value)

/-- A mode is sent by its name. -/
def Mode.toJson (mode : Mode) : Value :=
  .text mode.name

/-- A number is sent in the form in which it came. -/
def NumberInput.toJson : NumberInput → Value
  | .number value => .double value
  | .text sent => .text sent

/-- A request is sent in one of two shapes, told apart by their fields. -/
def Request.toJson : Request → Value
  | .expression text mode => .object [("expression", .text text), ("mode", mode.toJson)]
  | .scientific value operation second =>
      .object ([("value", .double value), ("operation", .text operation)] ++
        (second.map fun x => ("secondValue", Value.double x)).toList)

/-- A calculation with its result. -/
def Calculation.toJson (c : Calculation) : Value :=
  .object [("expression", .text c.expression), ("result", .double c.result),
    ("formattedResult", .text c.formatted), ("mode", c.mode.toJson)]

/-- What the history keeps of a calculation. -/
def Entry.toJson (e : Entry) : Value :=
  .object [("expression", .text e.expression), ("result", .text e.result),
    ("mode", e.mode.toJson)]

/-- A record of the history. -/
def History.Record.toJson (r : History.Record) : Value :=
  .object [("id", .integer r.id), ("expression", .text r.expression), ("result", .text r.result),
    ("mode", r.mode.toJson), ("created_at", .integer r.createdAt)]

/-- A list of records. -/
def History.Record.listToJson (records : List History.Record) : Value :=
  .array (records.map History.Record.toJson)

/-- A row of the archive. -/
def History.Row.toJson (r : History.Row) : Value :=
  .object [("id", .integer r.id), ("expression", .text r.expression), ("result", .text r.result),
    ("mode", .text r.mode), ("created_at", .integer r.createdAt)]

/-- An archive, as it is kept. -/
def History.Archive.toJson (a : History.Archive) : Value :=
  .object [("last_id", .integer a.lastId), ("rows", .array (a.rows.map History.Row.toJson))]

/-- A count of deleted records. -/
def deletedToJson (count : Nat) : Value :=
  .object [("deleted", .integer count)]

/-- What the service answers. -/
def Outcome.toJson : Outcome → Value
  | .calculation found => found.toJson
  | .records found => History.Record.listToJson found
  | .deleted count => deletedToJson count

/-- The outcome of a check. -/
def Verdict.toJson (v : Verdict) : Value :=
  .object ([("isValid", Value.bool v.isValid)] ++
    (v.error.map fun text => ("error", Value.text text)).toList)

/-- The text that a refusal carries. -/
def Refusal.payload : Refusal → Option String
  | .divisionByZero => none
  | .validation text | .domain text | .missingOperand text | .unsupportedOperation text
  | .invalidOperation text | .evaluation text => some text

/-- A refusal is sent by its name, or as an object with its name and the text it carries. -/
def Refusal.toJson (r : Refusal) : Value :=
  match r.payload with
  | none => .text r.kind
  | some text => .object [(r.kind, .text text)]

end Abacus
