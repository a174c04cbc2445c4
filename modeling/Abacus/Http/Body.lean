import Abacus.Http.Message
import Abacus.Http.MediaType
import Abacus.Service
import Abacus.Wire.Decoding

/-!
# Bodies — the requests that are sent in JSON

A body is read once the headers say that it is JSON.  Members that are missing are worded one by
one, so all of them may be.

A body that is no JSON, or JSON of another shape, is answered in words that are fixed up to their
colon.  Behind it only the kind of fault is told (`Json.Fault.detail`), not the place where reading
stopped and what stands there.
-/

namespace Abacus.Http

open Json

/-- Why a request cannot be read. -/
inductive Rejection where
  /-- The body is not said to be JSON. -/
  | mediaType
  /-- The body is longer than is read. -/
  | tooLong
  /-- The body is not JSON, or JSON of another shape. -/
  | body (fault : Json.Fault)
  | noExpression
  /-- The expression is not a text. -/
  | noText
  /-- The mode, given in lower case, is none. -/
  | mode (lower : String)
  /-- The value or the operation of a scientific call is missing. -/
  | incomplete
  deriving DecidableEq

/-- The wording of a rejection. -/
def Rejection.message : Rejection → String
  | .mediaType => "Expected request with \x60Content-Type: application/json\x60"
  | .tooLong => "Failed to buffer the request body: length limit exceeded"
  | .body .malformed => "Failed to parse the request body as JSON: " ++ Json.Fault.malformed.detail
  | .body .mismatch =>
      "Failed to deserialize the JSON body into the target type: " ++ Json.Fault.mismatch.detail
  | .noExpression => "Expression is required"
  | .noText => "Expression must be a non-empty string"
  | .mode lower => Mode.invalid lower
  | .incomplete => "Value and operation are required"

/-- The greatest length of a body that is read, in bytes. -/
def bodyLimit : Nat := 2 * 1024 * 1024

/-- Read a body as data of one type. -/
def readBody (decoder : Decoder α) (request : Request) : Except Rejection α :=
  if !(request.header? "content-type").any MediaType.isJson then .error .mediaType
  else if bodyLimit < request.body.utf8ByteSize then .error .tooLong
  else (decodeText decoder request.body).mapError .body

/-- A mode in any letter case; standard if there is none. -/
def readMode (mode : Option String) : Except Rejection Mode :=
  match mode with
  | some text => (Mode.parse text).mapError .mode
  | none => .ok .standard

/-- The body of a request by an expression. -/
structure ExpressionBody where
  expression : Option (Option Value)
  mode : Option (Option String)

namespace ExpressionBody

/-- The body with whatever it holds as the expression. -/
def decoder : Decoder ExpressionBody :=
  Decoder.record
    [.at "expression" ExpressionBody.expression (fun x r => { r with expression := some x })
        (Decoder.optional Decoder.value),
      .at "mode" ExpressionBody.mode (fun x r => { r with mode := some x })
        (Decoder.optional Decoder.text)]
    ⟨none, none⟩

/-- The text of the expression. -/
def text (body : ExpressionBody) : Except Rejection String :=
  match body.expression.join with
  | none | some .null => .error .noExpression
  | some (.text text) => if text.isEmpty then .error .noExpression else .ok text
  | some _ => .error .noText

/-- What is asked for. -/
def request (body : ExpressionBody) : Except Rejection Abacus.Request := do
  let text ← body.text
  let mode ← readMode body.mode.join
  return .expression text mode

end ExpressionBody

/-- The body of a scientific request. -/
structure ScientificBody where
  value : Option (Option NumberInput)
  operation : Option (Option String)
  second : Option (Option NumberInput)

namespace ScientificBody

/-- The body with whatever members it has. -/
def decoder : Decoder ScientificBody :=
  Decoder.record
    [.at "value" ScientificBody.value (fun x r => { r with value := some x })
        (Decoder.optional NumberInput.decoder),
      .at "operation" ScientificBody.operation (fun x r => { r with operation := some x })
        (Decoder.optional Decoder.text),
      .at "secondValue" ScientificBody.second (fun x r => { r with second := some x })
        (Decoder.optional NumberInput.decoder)]
    ⟨none, none, none⟩

/-- What is asked for. -/
def request (body : ScientificBody) : Except Rejection Abacus.Request :=
  match body.value.join, body.operation.join with
  | some value, some operation =>
      if operation.isEmpty then .error .incomplete
      else .ok (.scientific value.toDouble operation
        (body.second.join.map NumberInput.toDouble))
  | _, _ => .error .incomplete

end ScientificBody

end Abacus.Http
