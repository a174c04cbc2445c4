import Abacus.Rpc.Call
import Abacus.Text.Basic
import Abacus.Wire.Encoding

/-!
# Handler — from a call to its answer

A call that cannot be understood is a fault.  One that is understood has a result, and the result
says whether it is an error.  Calls come one on a line, and so do the answers.
-/

namespace Abacus.Rpc

open Json (Value)

/-- What comes of a call. -/
inductive Plan where
  | reply (answer : Except Fault Value)
  | run (call : ToolCall)

/-- The name and the version of the program. -/
def programName : String := "calculator"

/-- The version of the program. -/
def programVersion : String := "1.0.0"

/-- What a client is told about the program. -/
def introduction : Value :=
  .object [("protocolVersion", .text "2024-11-05"),
    ("capabilities", .object [("tools", .object [])]),
    ("serverInfo", .object [("name", .text programName), ("version", .text programVersion)])]

/-- The list of tools. -/
def toolList : Value :=
  .object [("tools", .array (Tool.all.map Tool.toJson))]

/-- What comes of a call. -/
def Plan.of (request : Request) : Plan :=
  if request.method == "initialize" then .reply (.ok introduction)
  else if request.method == "tools/list" then .reply (.ok toolList)
  else if request.method == "tools/call" then
    match CallParams.read request.params >>= CallParams.toolCall with
    | .ok call => .run call
    | .error fault => .reply (.error fault)
  else .reply (.error (.unknownMethod request.method))

/-- A text as the result of a tool. -/
def textResult (text : String) : Value :=
  .object [("content", .array [.object [("type", .text "text"), ("text", .text text)]])]

/-- A text as the result of a tool that failed. -/
def errorResult (text : String) : Value :=
  .object [("content", .array [.object [("type", .text "text"), ("text", .text text)]]),
    ("isError", .bool true)]

/-- What the service says, as the result of a tool. -/
def resultOf (answer : Except Failure Outcome) : Value :=
  match answer with
  | .ok outcome => textResult outcome.toJson.indented
  | .error failure => errorResult failure.message

/-- Run a call of a tool at the given time. -/
def run (now : Int) (call : ToolCall) (service : Service) : Value × Service :=
  match call.command with
  | .error reason => (errorResult reason, service)
  | .ok command =>
      let (answer, next) := service.perform now command
      (resultOf answer, next)

/-- An answer with what is noted about it, and the service after it. -/
structure Handled where
  response : Response
  notices : List String
  service : Service

/-- Handle a call at the given time. -/
def handle (now : Int) (text : String) (service : Service) : Handled :=
  match Json.decodeText Request.decoder text with
  | .error fault => ⟨⟨none, .error (.unreadable fault)⟩, [], service⟩
  | .ok request =>
      match Plan.of request with
      | .reply answer => ⟨⟨request.id, answer⟩, [], service⟩
      | .run call =>
          let (result, next) := run now call service
          ⟨⟨request.id, .ok result⟩, [call.notice], next⟩

/-- The calls in a text: its lines without the white space around them, if anything is left. -/
def callsOf (input : String) : List String :=
  (((Text.lines input.toList).map Text.trimBlanks).filter fun line => !line.isEmpty).map
    String.ofList

end Abacus.Rpc
