import Abacus.Json.Decoder
import Abacus.Json.Writer

/-!
# Messages — calls of remote procedures

A call names a method and carries an identifier, which the answer repeats.  An answer is a result
or a fault with a number.  The wording of a fault of JSON is fixed up to its colon; behind it only the
kind of fault is told (`Json.Fault.detail`).
-/

namespace Abacus.Rpc

open Json (Value Decoder)

/-- A call. -/
structure Request where
  id : Option Value
  method : String
  params : Option Value

/-- Why a call has no result. -/
inductive Fault where
  /-- The text is not a call. -/
  | unreadable (fault : Json.Fault)
  | unknownMethod (method : String)
  | params (fault : Json.Fault)
  | unknownTool (name : String)
  | arguments (fault : Json.Fault)
  deriving DecidableEq

namespace Fault

/-- The number of a fault. -/
def code : Fault → Int
  | .unreadable _ => -32700
  | .unknownMethod _ => -32601
  | .params _ | .unknownTool _ | .arguments _ => -32602

/-- The wording of a fault. -/
def message : Fault → String
  | .unreadable fault => "Parse error: " ++ fault.detail
  | .unknownMethod method => "Method not found: " ++ method
  | .params fault => "Invalid params: " ++ fault.detail
  | .unknownTool name => "Unknown tool: " ++ name
  | .arguments fault => "Invalid arguments: " ++ fault.detail

/-- A fault, as it is sent. -/
def toJson (fault : Fault) : Value :=
  .object [("code", .integer fault.code), ("message", .text fault.message)]

end Fault

/-- An answer to the call with the given identifier. -/
structure Response where
  id : Option Value
  answer : Except Fault Value

namespace Request

/-- The fields of a call. -/
structure Fields where
  version : Option String
  id : Option (Option Value)
  method : Option String
  params : Option (Option Value)

/-- A call.  The version may be any text, but has to be there. -/
def decoder : Decoder Request := fun nestings tree => do
  let fields ← Decoder.record
    [.at "jsonrpc" Fields.version (fun x r => { r with version := some x }) Decoder.text,
      .at "id" Fields.id (fun x r => { r with id := some x }) (Decoder.optional Decoder.value),
      .at "method" Fields.method (fun x r => { r with method := some x }) Decoder.text,
      .at "params" Fields.params (fun x r => { r with params := some x })
        (Decoder.optional Decoder.value)]
    ⟨none, none, none, none⟩ nestings tree
  let _ ← Decoder.required fields.version
  return ⟨fields.id.join, ← Decoder.required fields.method, fields.params.join⟩

end Request

namespace Response

/-- An answer, as it is sent: the members of the identifier and of the result come in the order of
their names. -/
def toJson (response : Response) : Value :=
  let answer := match response.answer with
    | .ok result => ("result", result.sorted)
    | .error fault => ("error", fault.toJson)
  .object [("jsonrpc", .text "2.0"), ("id", (response.id.getD .null).sorted), answer]

/-- An answer on one line. -/
def text (response : Response) : String :=
  response.toJson.compact

end Response

end Abacus.Rpc
