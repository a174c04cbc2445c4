import Abacus.Proofs.Rpc.Call
import Abacus.Proofs.Rpc.Handler

/-!
# Faults — which number an answer has, and when

An answer repeats the identifier of the call and is a result or a fault (`isAnswer_toJson`).  A text
is no call at all, or a call of a method that there is not, or a call of the tools with parameters
that none of them takes, or it has a result; these four cases exclude each other (`Finding`), and
what comes of a text is always the number of its case (`finding_handle`).  So the number says what
is wrong with a call (`answers_have_codes`), and what fails after it has been understood has none.
-/

namespace Abacus.Rpc

open Json (Value decodeText decodeValue IsText)

/-! ## The identifier -/

/-- The identifier that an answer to the text carries: that of the call, and a null if there is none
or the text is not a call. -/
def identifierOf (text : String) : Value :=
  match decodeText Request.decoder text with
  | .ok request => (request.id.getD .null).sorted
  | .error _ => .null

theorem identifierOf_of_isText {text : String} {members : List (String × Value)} {request : Request}
    (htext : IsText text (.object members))
    (hread : decodeText Request.decoder text = .ok request) :
    identifierOf text = ((members.lookup "id").getD .null).sorted := by
  have hid := Request.id_of_decode ((htext.decodeText _).symm.trans hread)
  rw [identifierOf, hread]
  show (request.id.getD .null).sorted = _
  rw [hid]
  cases members.lookup "id" with
  | none => rfl
  | some value => cases value <;> rfl

/-! ## Answers -/

/-- What is sent is an answer to the identifier: a result without a number, or an error with its
number. -/
inductive IsAnswer : Value → Value → Option Int → Prop where
  | result {id result : Value} :
      IsAnswer (.object [("jsonrpc", .text "2.0"), ("id", id), ("result", result)]) id none
  | error {id : Value} {code : Int} {message : String} :
      IsAnswer (.object [("jsonrpc", .text "2.0"), ("id", id),
        ("error", .object [("code", .integer code), ("message", .text message)])]) id (some code)

/-- The number of the fault that the response is, if it is one. -/
def Response.code? (response : Response) : Option Int :=
  match response.answer with
  | .ok _ => none
  | .error fault => some fault.code

/-- What is sent has one number at most. -/
theorem IsAnswer.unique {sent id id' : Value} {code code' : Option Int} (h : IsAnswer sent id code)
    (h' : IsAnswer sent id' code') : code = code' := by
  cases h with
  | result =>
      generalize hsent : Value.object _ = sent at h'
      cases h' with
      | result => rfl
      | error => simp at hsent
  | error =>
      generalize hsent : Value.object _ = sent at h'
      cases h' with
      | result => simp at hsent
      | error =>
          simp only [Value.object.injEq, List.cons.injEq, Prod.mk.injEq, Value.integer,
            Value.number.injEq, Json.Number.integer.injEq, true_and, and_true] at hsent
          rw [hsent.2.1]

theorem Response.isAnswer_toJson (response : Response) :
    IsAnswer response.toJson (response.id.getD .null).sorted response.code? := by
  obtain ⟨id, answer⟩ := response
  cases answer with
  | ok result => exact .result
  | error fault => exact .error

/-! ## Calls that are understood -/

/-- The parameters do not name a tool, or carry arguments that are not those of the tool. -/
inductive Misuses (params : Option Value) : Prop where
  | params {fault : Fault} : CallParams.read params = .error fault → Misuses params
  | tool {found : CallParams} : CallParams.read params = .ok found →
      (∀ tool : Tool, tool.name ≠ found.name) → Misuses params
  | arguments {found : CallParams} {tool : Tool} {fault : Json.Fault} :
      CallParams.read params = .ok found → tool.name = found.name →
        decodeValue (ToolCall.decoder tool) (found.arguments.getD (.object [])) = .error fault →
          Misuses params

theorem CallParams.code_of_toolCall {params : CallParams} {fault : Fault}
    (h : params.toolCall = .error fault) : fault.code = -32602 := by
  rw [toolCall] at h
  split at h
  · obtain rfl := Except.error.inj h
    rfl
  · obtain ⟨cause, -, rfl⟩ := mapError_eq_error_iff.mp h
    rfl

theorem CallParams.code_of_read {params : Option Value} {fault : Fault}
    (h : read params = .error fault) : fault.code = -32602 := by
  obtain ⟨cause, -, rfl⟩ := mapError_eq_error_iff.mp h
  rfl

theorem Tool.ofName?_eq_none_iff {name : String} :
    ofName? name = none ↔ ∀ tool : Tool, tool.name ≠ name := by
  constructor
  · rintro h tool rfl
    exact nomatch (ofName?_name tool).symm.trans h
  · intro h
    cases hfound : ofName? name with
    | none => rfl
    | some tool => exact absurd (name_eq_of_ofName? hfound).symm (h tool)

/-- Parameters are misused when no call of a tool can be made of them. -/
theorem misuses_iff {params : Option Value} :
    Misuses params ↔ ∃ fault, CallParams.read params >>= CallParams.toolCall = .error fault := by
  constructor
  · intro h
    cases h with
    | params hread => exact ⟨_, bind_eq_error_iff.mpr (Or.inl hread)⟩
    | @tool found hread hname =>
        refine ⟨.unknownTool found.name, bind_eq_error_iff.mpr (Or.inr ⟨found, hread, ?_⟩)⟩
        rw [CallParams.toolCall, Tool.ofName?_eq_none_iff.mpr hname]
    | @arguments found tool fault hread hname harguments =>
        refine ⟨.arguments fault, bind_eq_error_iff.mpr (Or.inr ⟨found, hread, ?_⟩)⟩
        rw [CallParams.toolCall, ← hname, Tool.ofName?_name]
        exact mapError_eq_error_iff.mpr ⟨fault, harguments, rfl⟩
  · rintro ⟨fault, h⟩
    rcases bind_eq_error_iff.mp h with hread | ⟨found, hread, hcall⟩
    · exact .params hread
    · rw [CallParams.toolCall] at hcall
      split at hcall
      · next hname => exact .tool hread (Tool.ofName?_eq_none_iff.mp hname)
      · next tool hname =>
        obtain ⟨cause, harguments, -⟩ := mapError_eq_error_iff.mp hcall
        exact .arguments hread (Tool.name_eq_of_ofName? hname).symm harguments

/-- The methods. -/
def Request.methods : List String :=
  ["initialize", "tools/list", "tools/call"]

/-- What comes of a text, with the number of the answer to it. -/
inductive Finding (text : String) : Option Int → Prop where
  | unreadable {fault : Json.Fault} : decodeText Request.decoder text = .error fault →
      Finding text (some (-32700))
  | unknown {request : Request} : decodeText Request.decoder text = .ok request →
      request.method ∉ Request.methods → Finding text (some (-32601))
  | misused {request : Request} : decodeText Request.decoder text = .ok request →
      request.method = "tools/call" → Misuses request.params → Finding text (some (-32602))
  | understood {request : Request} : decodeText Request.decoder text = .ok request →
      request.method ∈ Request.methods →
        (request.method = "tools/call" → ¬ Misuses request.params) → Finding text none

namespace Finding

variable {text : String} {code : Option Int}

theorem eq_unreadable_iff (h : Finding text code) :
    code = some (-32700) ↔ ∃ fault, decodeText Request.decoder text = .error fault := by
  cases h with
  | unreadable hread => exact ⟨fun _ => ⟨_, hread⟩, fun _ => rfl⟩
  | unknown hread _ => simp [hread]
  | misused hread _ _ => simp [hread]
  | understood hread _ _ => simp [hread]

theorem eq_unknown_iff (h : Finding text code) :
    code = some (-32601) ↔ ∃ request, decodeText Request.decoder text = .ok request ∧
      request.method ∉ Request.methods := by
  cases h with
  | unreadable hread => simp [hread]
  | unknown hread hmethod => exact ⟨fun _ => ⟨_, hread, hmethod⟩, fun _ => rfl⟩
  | misused hread hmethod _ => simp [hread, hmethod, Request.methods]
  | understood hread hmethod _ => simp [hread, hmethod]

theorem eq_misused_iff (h : Finding text code) :
    code = some (-32602) ↔ ∃ request, decodeText Request.decoder text = .ok request ∧
      request.method = "tools/call" ∧ Misuses request.params := by
  cases h with
  | unreadable hread => simp [hread]
  | unknown hread hmethod =>
      constructor
      · intro h
        exact absurd (Option.some.inj h) (by decide)
      · rintro ⟨request, hrequest, hcall, -⟩
        obtain rfl := Except.ok.inj (hread.symm.trans hrequest)
        exact absurd (hcall ▸ by decide) hmethod
  | misused hread hmethod hmisused => exact ⟨fun _ => ⟨_, hread, hmethod, hmisused⟩, fun _ => rfl⟩
  | understood hread _ hcall =>
      constructor
      · intro h
        exact nomatch h
      · rintro ⟨request, hrequest, hmethod, hmisused⟩
        obtain rfl := Except.ok.inj (hread.symm.trans hrequest)
        exact absurd hmisused (hcall hmethod)

theorem eq_none_iff {request : Request} (h : Finding text code)
    (hread : decodeText Request.decoder text = .ok request)
    (hmethod : request.method = "tools/call") : code = none ↔ ¬ Misuses request.params := by
  cases h with
  | unreadable hother => exact nomatch hread.symm.trans hother
  | unknown hother hunknown =>
      obtain rfl := Except.ok.inj (hread.symm.trans hother)
      exact absurd (hmethod ▸ by decide) hunknown
  | misused hother _ hmisused =>
      obtain rfl := Except.ok.inj (hread.symm.trans hother)
      exact iff_of_false nofun (not_not_intro hmisused)
  | understood hother _ hcall =>
      obtain rfl := Except.ok.inj (hread.symm.trans hother)
      exact iff_of_true rfl (hcall hmethod)

theorem ne_internal (h : Finding text code) : code ≠ some (-32603) := by
  cases h <;> decide

end Finding

/-! ## What comes of a text -/

theorem handle_of_reply {text : String} {request : Request} {answer : Except Fault Value}
    (hread : decodeText Request.decoder text = .ok request)
    (hplan : Plan.of request = .reply answer) (now : Int) (service : Service) :
    (handle now text service).response = ⟨request.id, answer⟩ := by
  rw [handle, hread]
  dsimp only
  rw [hplan]

theorem handle_of_run {text : String} {request : Request} {call : ToolCall}
    (hread : decodeText Request.decoder text = .ok request)
    (hplan : Plan.of request = .run call) (now : Int) (service : Service) :
    (handle now text service).response = ⟨request.id, .ok (run now call service).1⟩ := by
  rw [handle, hread]
  dsimp only
  rw [hplan]

theorem Plan.of_call {request : Request} (h : request.method = "tools/call") :
    Plan.of request =
      match CallParams.read request.params >>= CallParams.toolCall with
      | .ok call => .run call
      | .error fault => .reply (.error fault) := by
  rw [Plan.of, h]
  rfl

theorem Plan.of_unknown {request : Request} (h : request.method ∉ Request.methods) :
    Plan.of request = .reply (.error (.unknownMethod request.method)) := by
  simp only [Request.methods, List.mem_cons, List.not_mem_nil, or_false, not_or] at h
  obtain ⟨hstart, hlist, hcall⟩ := h
  simp only [Plan.of, beq_iff_eq, hstart, hlist, hcall, if_false]

theorem Plan.exists_of_other {request : Request} (h : request.method ∈ Request.methods)
    (hcall : request.method ≠ "tools/call") :
    ∃ result, Plan.of request = .reply (.ok result) := by
  simp only [Request.methods, List.mem_cons, List.not_mem_nil, or_false] at h
  rcases h with h | h | h
  · exact ⟨introduction, by rw [Plan.of, h]; rfl⟩
  · exact ⟨toolList, by rw [Plan.of, h]; rfl⟩
  · exact absurd h hcall

theorem sorted_id_handle (now : Int) (text : String) (service : Service) :
    ((handle now text service).response.id.getD .null).sorted = identifierOf text := by
  cases hread : decodeText Request.decoder text with
  | error fault =>
      rw [handle, identifierOf, hread]
      rfl
  | ok request =>
      cases hplan : Plan.of request with
      | reply answer => rw [handle_of_reply hread hplan, identifierOf, hread]
      | run call => rw [handle_of_run hread hplan, identifierOf, hread]

/-- The answer to a text has the number of its case. -/
theorem finding_handle (now : Int) (text : String) (service : Service) :
    Finding text (handle now text service).response.code? := by
  cases hread : decodeText Request.decoder text with
  | error fault =>
      rw [handle, hread]
      exact .unreadable hread
  | ok request =>
      by_cases hmethod : request.method ∈ Request.methods
      · by_cases hcall : request.method = "tools/call"
        · have hplan := Plan.of_call hcall
          cases hparams : CallParams.read request.params >>= CallParams.toolCall with
          | error fault =>
              rw [hparams] at hplan
              have hcode : fault.code = -32602 := by
                rcases bind_eq_error_iff.mp hparams with h | ⟨found, -, h⟩
                · exact CallParams.code_of_read h
                · exact CallParams.code_of_toolCall h
              rw [handle_of_reply hread hplan]
              show Finding text (some fault.code)
              rw [hcode]
              exact .misused hread hcall (misuses_iff.mpr ⟨fault, hparams⟩)
          | ok call =>
              rw [hparams] at hplan
              rw [handle_of_run hread hplan]
              refine .understood hread hmethod fun _ hmisused => ?_
              obtain ⟨fault, hfault⟩ := misuses_iff.mp hmisused
              rw [hparams] at hfault
              cases hfault
        · -- the two other methods have an answer of their own
          obtain ⟨result, hplan⟩ := Plan.exists_of_other hmethod hcall
          rw [handle_of_reply hread hplan]
          exact .understood hread hmethod fun h => absurd h hcall
      · rw [handle_of_reply hread (Plan.of_unknown hmethod)]
        exact .unknown hread hmethod

theorem isAnswer_handle (now : Int) (text : String) (service : Service) :
    IsAnswer (handle now text service).response.toJson (identifierOf text)
      (handle now text service).response.code? := by
  rw [← sorted_id_handle now text service]
  exact Response.isAnswer_toJson _

theorem isAnswer_handle_iff {now : Int} {text : String} {service : Service} {code : Option Int} :
    IsAnswer (handle now text service).response.toJson (identifierOf text) code ↔
      (handle now text service).response.code? = code := by
  have hanswer := isAnswer_handle now text service
  constructor
  · intro h
    exact hanswer.unique h
  · rintro rfl
    exact hanswer

/-! ## What fails after a call has been understood -/

/-- The text is a call of a tool that is understood. -/
def AsksFor (text : String) (call : ToolCall) : Prop :=
  ∃ request params, decodeText Request.decoder text = .ok request ∧
    request.method = "tools/call" ∧ CallParams.read request.params = .ok params ∧
      params.toolCall = .ok call

/-- The call fails with that message: it asks for nothing that the service can do, or the service
fails in doing it. -/
inductive ToolCall.FailsWith (call : ToolCall) (now : Int) (service : Service) : String → Prop where
  | command {reason : String} : call.command = .error reason → FailsWith call now service reason
  | service {command : Command} {failure : Failure} : call.command = .ok command →
      (service.perform now command).1 = .error failure → FailsWith call now service failure.message

/-- A failure, as it is sent. -/
def failureJson (message : String) : Value :=
  .object [("content", .array [.object [("text", .text message), ("type", .text "text")]]),
    ("isError", .bool true)]

theorem sorted_errorResult (message : String) :
    (errorResult message).sorted = failureJson message := by
  rfl

theorem ToolCall.FailsWith.fst_run {call : ToolCall} {now : Int} {service : Service}
    {message : String} (h : call.FailsWith now service message) :
    (run now call service).1 = errorResult message := by
  cases h with
  | command hcommand => rw [run, hcommand]
  | service hcommand hfailure =>
      rw [run, hcommand]
      show resultOf (service.perform now _).1 = _
      rw [hfailure]
      rfl

theorem toJson_handle_of_failsWith {text : String} {call : ToolCall} (hcall : AsksFor text call)
    {now : Int} {service : Service} {message : String} (h : call.FailsWith now service message) :
    (handle now text service).response.toJson =
      .object [("jsonrpc", .text "2.0"), ("id", identifierOf text),
        ("result", failureJson message)] := by
  obtain ⟨request, params, hread, hmethod, hparams, htool⟩ := hcall
  have hplan := Plan.of_call hmethod
  rw [bind_eq_ok_iff.mpr ⟨params, hparams, htool⟩] at hplan
  rw [handle_of_run hread hplan, h.fst_run, identifierOf, hread, ← sorted_errorResult]
  rfl

/-- **The number of an answer says what is wrong with the call.**  Every answer repeats the
identifier of the call and is either a result or an error with a number.  The number depends on the
text alone: one for what is no call, one for a method that there is not and one for parameters that
no tool takes.  What fails in a call that is understood, in the service or before it is asked, is a
result that says so. -/
theorem answers_have_codes (now : Int) (text : String) (service : Service) :
    (∃ code : Option Int,
      IsAnswer (handle now text service).response.toJson (identifierOf text) code ∧
        (code = some (-32700) ↔ ∃ fault, decodeText Request.decoder text = .error fault) ∧
        (code = some (-32601) ↔ ∃ request, decodeText Request.decoder text = .ok request ∧
          request.method ∉ ["initialize", "tools/list", "tools/call"]) ∧
        (code = some (-32602) ↔ ∃ request, decodeText Request.decoder text = .ok request ∧
          request.method = "tools/call" ∧ Misuses request.params) ∧
        code ≠ some (-32603)) ∧
      (∀ members request, IsText text (.object members) →
        decodeText Request.decoder text = .ok request →
          identifierOf text = ((members.lookup "id").getD .null).sorted) ∧
      ∀ call message, AsksFor text call → call.FailsWith now service message →
        (handle now text service).response.toJson =
          .object [("jsonrpc", .text "2.0"), ("id", identifierOf text),
            ("result", failureJson message)] := by
  have hfinding := finding_handle now text service
  refine ⟨⟨_, isAnswer_handle now text service, hfinding.eq_unreadable_iff,
    hfinding.eq_unknown_iff, hfinding.eq_misused_iff, hfinding.ne_internal⟩, ?_, ?_⟩
  · intro members request htext hread
    exact identifierOf_of_isText htext hread
  · intro call message hcall hfails
    exact toJson_handle_of_failsWith hcall hfails

end Abacus.Rpc
