import Abacus.Calculation
import Abacus.History.Retention
import Abacus.Json.Decoder
import Abacus.Number

/-!
# Decoding — JSON as the data of the service

The readers of the types that are sent.  Members that a type does not know are passed over.
-/

namespace Abacus

open Json
open Json.Decoder

/-- A mode is read by its exact name. -/
def Mode.decoder : Decoder Mode :=
  oneOf Mode.ofName? fun name => (Mode.ofName? name).map nothing

/-- A number or a text. -/
def NumberInput.decoder : Decoder NumberInput :=
  firstOf
    [fun nestings tree => (double nestings tree).map .number,
      fun nestings tree => (Decoder.text nestings tree).map .text]

/-- The refusal of a kind that carries a text. -/
def Refusal.ofKind? (kind : String) : Option (String → Refusal) :=
  [Refusal.validation, .domain, .missingOperand, .unsupportedOperation, .invalidOperation,
    .evaluation].find? fun refusal => (refusal "").kind == kind

/-- A refusal, by its name or with the text it carries. -/
def Refusal.decoder : Decoder Refusal :=
  oneOf (fun name => if name == Refusal.divisionByZero.kind then some .divisionByZero else none)
    fun name =>
      if name == Refusal.divisionByZero.kind then some (nothing .divisionByZero)
      else (Refusal.ofKind? name).map fun refusal nestings tree =>
        (Decoder.text nestings tree).map refusal

namespace Request

/-- The fields of a request by an expression. -/
structure ExpressionFields where
  expression : Option String
  mode : Option Mode

/-- A request by an expression; the mode is standard unless it is given. -/
def expressionDecoder : Decoder Request := fun nestings tree => do
  let fields ← recordAs false
    [.at "expression" ExpressionFields.expression (fun x r => { r with expression := some x })
        Decoder.text,
      .at "mode" ExpressionFields.mode (fun x r => { r with mode := some x }) Mode.decoder]
    ⟨none, none⟩ nestings tree
  return .expression (← required fields.expression) (fields.mode.getD .standard)

/-- The fields of a request by a function. -/
structure ScientificFields where
  value : Option Double
  operation : Option String
  second : Option (Option Double)

/-- A request by a function; the second value may be left out. -/
def scientificDecoder : Decoder Request := fun nestings tree => do
  let fields ← recordAs false
    [.at "value" ScientificFields.value (fun x r => { r with value := some x }) double,
      .at "operation" ScientificFields.operation (fun x r => { r with operation := some x })
        Decoder.text,
      .at "secondValue" ScientificFields.second (fun x r => { r with second := some x })
        (optional double)]
    ⟨none, none, none⟩ nestings tree
  return .scientific (← required fields.value) (← required fields.operation)
    (fields.second.getD none)

/-- A request in the first of its two shapes that fits. -/
def decoder : Decoder Request :=
  firstOf [expressionDecoder, scientificDecoder]

end Request

namespace Calculation

/-- The fields of a calculation. -/
structure Fields where
  expression : Option String
  result : Option Double
  formatted : Option String
  mode : Option Mode

/-- A calculation with its result. -/
def decoder : Decoder Calculation := fun nestings tree => do
  let fields ← record
    [.at "expression" Fields.expression (fun x r => { r with expression := some x }) Decoder.text,
      .at "result" Fields.result (fun x r => { r with result := some x }) double,
      .at "formattedResult" Fields.formatted (fun x r => { r with formatted := some x })
        Decoder.text,
      .at "mode" Fields.mode (fun x r => { r with mode := some x }) Mode.decoder]
    ⟨none, none, none, none⟩ nestings tree
  return ⟨← required fields.expression, ← required fields.result, ← required fields.formatted,
    ← required fields.mode⟩

end Calculation

namespace History.Record

/-- The fields of a record. -/
structure Fields where
  id : Option Int
  expression : Option String
  result : Option String
  mode : Option Mode
  createdAt : Option Int

/-- A record of the history. -/
def decoder : Decoder History.Record := fun nestings tree => do
  let fields ← record
    [.at "id" Fields.id (fun x r => { r with id := some x }) integer,
      .at "expression" Fields.expression (fun x r => { r with expression := some x })
        Decoder.text,
      .at "result" Fields.result (fun x r => { r with result := some x }) Decoder.text,
      .at "mode" Fields.mode (fun x r => { r with mode := some x }) Mode.decoder,
      .at "created_at" Fields.createdAt (fun x r => { r with createdAt := some x }) integer]
    ⟨none, none, none, none, none⟩ nestings tree
  return ⟨← required fields.id, ← required fields.expression, ← required fields.result,
    ← required fields.mode, ← required fields.createdAt⟩

end History.Record

/-- A list of records. -/
def History.Record.listDecoder : Decoder (List History.Record) :=
  list History.Record.decoder

namespace History.Row

/-- The fields of a row. -/
structure Fields where
  id : Option Nat
  expression : Option String
  result : Option String
  mode : Option String
  createdAt : Option Int

/-- A row of the archive. -/
def decoder : Decoder History.Row := fun nestings tree => do
  let fields ← record
    [.at "id" Fields.id (fun x r => { r with id := some x }) natural,
      .at "expression" Fields.expression (fun x r => { r with expression := some x })
        Decoder.text,
      .at "result" Fields.result (fun x r => { r with result := some x }) Decoder.text,
      .at "mode" Fields.mode (fun x r => { r with mode := some x }) Decoder.text,
      .at "created_at" Fields.createdAt (fun x r => { r with createdAt := some x }) integer]
    ⟨none, none, none, none, none⟩ nestings tree
  return ⟨⟨← required fields.expression, ← required fields.result, ← required fields.mode,
    ← required fields.createdAt⟩, ← required fields.id⟩

end History.Row

namespace History.Archive

/-- The fields of an archive. -/
structure Fields where
  lastId : Option Nat
  rows : Option (List History.Row)

/-- An archive, as it is kept; rows whose numbers do not go up are none. -/
def decoder : Decoder History.Archive := fun nestings tree => do
  let fields ← record
    [.at "last_id" Fields.lastId (fun x r => { r with lastId := some x }) natural,
      .at "rows" Fields.rows (fun x r => { r with rows := some x }) (list History.Row.decoder)]
    ⟨none, none⟩ nestings tree
  required (ofRows? (← required fields.rows) (← required fields.lastId))

end History.Archive

namespace Verdict

/-- The fields of the outcome of a check. -/
structure Fields where
  isValid : Option Bool
  error : Option (Option String)

/-- The outcome of a check. -/
def decoder : Decoder Verdict := fun nestings tree => do
  let fields ← record
    [.at "isValid" Fields.isValid (fun x r => { r with isValid := some x }) bool,
      .at "error" Fields.error (fun x r => { r with error := some x }) (optional Decoder.text)]
    ⟨none, none⟩ nestings tree
  return ⟨← required fields.isValid, fields.error.getD none⟩

end Verdict

end Abacus
