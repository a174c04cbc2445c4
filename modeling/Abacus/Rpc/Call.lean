import Abacus.Rpc.Message
import Abacus.Rpc.Tool
import Abacus.Service
import Abacus.Text.Shown
import Abacus.Wire.Decoding

/-!
# Tool calls — what a call asks the service to do

The parameters of a call name a tool and carry its arguments; without arguments they are an empty
object.
-/

namespace Abacus.Rpc

open Json (Value Decoder)
open Json.Decoder (record required optional)

/-- A call of a tool, with its arguments as they were sent. -/
inductive ToolCall where
  | calculate (expression : String) (mode : Option String)
  | scientific (value : NumberInput) (operation : String) (second : Option NumberInput)
  | history (limit : Nat)
  | cleanup
  deriving DecidableEq

namespace ToolCall

/-- The arguments of a calculation. -/
structure ExpressionArguments where
  expression : Option String
  mode : Option (Option String)

/-- A calculation; the mode may be left out. -/
def calculateDecoder : Decoder ToolCall := fun nestings tree => do
  let fields ← record
    [.at "expression" ExpressionArguments.expression
        (fun x r => { r with expression := some x }) Decoder.text,
      .at "mode" ExpressionArguments.mode (fun x r => { r with mode := some x })
        (optional Decoder.text)]
    ⟨none, none⟩ nestings tree
  return .calculate (← required fields.expression) fields.mode.join

/-- The arguments of a scientific call. -/
structure ScientificArguments where
  value : Option NumberInput
  operation : Option String
  second : Option (Option NumberInput)

/-- A scientific call; the second value may be left out. -/
def scientificDecoder : Decoder ToolCall := fun nestings tree => do
  let fields ← record
    [.at "value" ScientificArguments.value (fun x r => { r with value := some x })
        NumberInput.decoder,
      .at "operation" ScientificArguments.operation (fun x r => { r with operation := some x })
        Decoder.text,
      .at "secondValue" ScientificArguments.second (fun x r => { r with second := some x })
        (optional NumberInput.decoder)]
    ⟨none, none, none⟩ nestings tree
  return .scientific (← required fields.value) (← required fields.operation) fields.second.join

/-- The arguments of a look at the history. -/
structure HistoryArguments where
  limit : Option (Option Nat)

/-- A look at the history; the limit may be left out. -/
def historyDecoder : Decoder ToolCall := fun nestings tree => do
  let fields ← record
    [.at "limit" HistoryArguments.limit (fun x r => { r with limit := some x })
        (optional Decoder.natural)]
    ⟨none⟩ nestings tree
  return .history (Limit.orDefault (fields.limit.join.getD 0))

/-- The call of a tool, from its arguments. -/
def decoder : Tool → Decoder ToolCall
  | .calculate => calculateDecoder
  | .scientific => scientificDecoder
  | .history => historyDecoder
  | .cleanup => fun _ _ => .ok .cleanup

/-- What a call asks for; the reason when it names a mode that there is not. -/
def command : ToolCall → Except String Command
  | .calculate expression mode =>
      match mode with
      | none => .ok (.calculate (.expression expression .standard))
      | some text =>
          match Mode.parse text with
          | .ok mode => .ok (.calculate (.expression expression mode))
          | .error lower => .error (Mode.invalid lower)
  | .scientific value operation second =>
      .ok (.calculate (.scientific value.toDouble operation (second.map NumberInput.toDouble)))
  | .history limit => .ok (.history limit)
  | .cleanup => .ok .cleanup

/-- A number as it was sent, in a notice. -/
def shownNumber : NumberInput → String
  | .number value => "Number(" ++ value.noted ++ ")"
  | .text sent => "Text(" ++ Text.shown sent ++ ")"

/-- What is noted about a call. -/
def notice : ToolCall → String
  | .calculate expression mode =>
      "Calling calculate: expression=" ++ expression ++ ", mode=" ++
        Text.shownOption (mode.map Text.shown)
  | .scientific value operation second =>
      "Calling calculate_scientific: operation=" ++ operation ++ ", value=" ++
        shownNumber value ++ ", secondValue=" ++ Text.shownOption (second.map shownNumber)
  | .history limit => s!"Calling calculation_history: limit={limit}"
  | .cleanup => "Calling cleanup_history"

end ToolCall

/-- The parameters of a call of a tool. -/
structure CallParams where
  name : String
  arguments : Option Value

namespace CallParams

/-- The fields of the parameters. -/
structure Fields where
  name : Option String
  arguments : Option (Option Value)

/-- The parameters of a call of a tool; the arguments may be left out. -/
def decoder : Decoder CallParams := fun nestings tree => do
  let fields ← record
    [.at "name" Fields.name (fun x r => { r with name := some x }) Decoder.text,
      .at "arguments" Fields.arguments (fun x r => { r with arguments := some x })
        (optional Decoder.value)]
    ⟨none, none⟩ nestings tree
  return ⟨← required fields.name, fields.arguments.join⟩

/-- The call that the parameters ask for. -/
def toolCall (params : CallParams) : Except Fault ToolCall :=
  match Tool.ofName? params.name with
  | none => .error (.unknownTool params.name)
  | some tool =>
      (Json.decodeValue (ToolCall.decoder tool) (params.arguments.getD (.object []))).mapError
        .arguments

/-- Read the parameters of a call.  Of several members of one name the last one counts. -/
def read (params : Option Value) : Except Fault CallParams :=
  (Json.decodeValue decoder (params.getD .null).sorted).mapError .params

end CallParams

end Abacus.Rpc
