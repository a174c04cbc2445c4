import Abacus.Proofs.Except
import Abacus.Proofs.Service
import Abacus.Proofs.Wire.Encoding
import Abacus.Rpc.Handler

/-!
# Handler — what a call does to the history

A call is answered at once, or it is a call of a tool (`Plan.of_cases`).  Apart from the tool that
cleans up, the only thing that changes the service is a calculation, and a calculation is offered
to the history exactly when the answer to the call shows it (`handle_offers`).
-/

namespace Abacus.Rpc

open Json (Value)

/-- The call is answered with the calculation. -/
def Response.Shows (response : Response) (c : Calculation) : Prop :=
  response.answer = .ok (textResult c.toJson.indented)

/-- The text is a call of the tool that cleans up. -/
def AsksForCleanup (text : String) : Prop :=
  ∃ request params, Json.decodeText Request.decoder text = .ok request ∧
    request.method = "tools/call" ∧ CallParams.read request.params = .ok params ∧
      params.name = Tool.cleanup.name

/-! ## Only the tool that cleans up cleans up -/

/-- A name is found only for the tool that has it. -/
theorem Tool.name_eq_of_ofName? {name : String} {tool : Tool} (h : ofName? name = some tool) :
    name = tool.name := by
  have hfound := List.find?_some h
  exact (beq_iff_eq.mp hfound).symm

/-- The arguments of another tool are never read as a cleanup. -/
theorem ToolCall.eq_cleanup_of_decoder {tool : Tool} {nestings : Nat} {tree : Json.Tree}
    (h : decoder tool nestings tree = .ok .cleanup) : tool = .cleanup := by
  cases tool with
  | calculate =>
      obtain ⟨fields, -, h⟩ := bind_eq_ok_iff.mp h
      obtain ⟨expression, -, h⟩ := bind_eq_ok_iff.mp h
      exact nomatch h
  | scientific =>
      obtain ⟨fields, -, h⟩ := bind_eq_ok_iff.mp h
      obtain ⟨value, -, h⟩ := bind_eq_ok_iff.mp h
      obtain ⟨operation, -, h⟩ := bind_eq_ok_iff.mp h
      exact nomatch h
  | history =>
      obtain ⟨fields, -, h⟩ := bind_eq_ok_iff.mp h
      exact nomatch h
  | cleanup => rfl

/-- Parameters that ask for a cleanup name the tool that cleans up. -/
theorem CallParams.name_eq_of_toolCall {params : CallParams} (h : params.toolCall = .ok .cleanup) :
    params.name = Tool.cleanup.name := by
  rw [toolCall] at h
  split at h
  · exact nomatch h
  · next tool htool =>
    -- the arguments belong to the tool that is named
    obtain rfl := ToolCall.eq_cleanup_of_decoder (mapError_eq_ok_iff.mp h)
    exact Tool.name_eq_of_ofName? htool

/-- Only a cleanup asks the service for one. -/
theorem ToolCall.eq_cleanup_of_command {call : ToolCall} (h : call.command = .ok .cleanup) :
    call = .cleanup := by
  cases call with
  | calculate expression mode =>
      cases mode with
      | none => exact nomatch h
      | some text =>
          rw [command] at h
          split at h
          · exact nomatch h
          · exact nomatch h
  | scientific value operation second => exact nomatch h
  | history limit => exact nomatch h
  | cleanup => rfl

/-! ## What comes of a call -/

/-- What can come of a call: an answer that is no text, or a call of a tool. -/
theorem Plan.of_cases (request : Request) :
    (∃ answer, Plan.of request = .reply answer ∧ ∀ text, answer ≠ .ok (textResult text)) ∨
      ∃ call params, Plan.of request = .run call ∧ request.method = "tools/call" ∧
        CallParams.read request.params = .ok params ∧ params.toolCall = .ok call := by
  -- neither of the two fixed answers has the shape of a text
  have hintroduction (text : String) : introduction ≠ textResult text := by
    simp [introduction, textResult]
  have htools (text : String) : toolList ≠ textResult text := by
    simp [toolList, textResult]
  rw [Plan.of]
  split
  · exact Or.inl ⟨_, rfl, fun text h => hintroduction text (Except.ok.inj h)⟩
  · split
    · exact Or.inl ⟨_, rfl, fun text h => htools text (Except.ok.inj h)⟩
    · split
      · next hmethod =>
        split
        · next call hcall =>
          obtain ⟨params, hparams, hcall⟩ := bind_eq_ok_iff.mp hcall
          exact Or.inr ⟨call, params, rfl, beq_iff_eq.mp hmethod, hparams, hcall⟩
        · exact Or.inl ⟨_, rfl, fun text h => nomatch h⟩
      · exact Or.inl ⟨_, rfl, fun text h => nomatch h⟩

/-! ## What the result of a tool shows -/

/-- The text of a result is that of no other. -/
theorem textResult_injective {first second : String} (h : textResult first = textResult second) :
    first = second := by
  simpa [textResult] using h

/-- An error is not the text of a result. -/
theorem errorResult_ne_textResult (reason text : String) : errorResult reason ≠ textResult text := by
  simp [errorResult, textResult]

/-- The result of a tool shows the calculation that the service answers, if there is one. -/
theorem told_resultOf (id : Option Value) (answer : Except Failure Outcome) :
    Told (Response.mk id (.ok (resultOf answer))).Shows (calculationOf answer) := by
  cases hfound : calculationOf answer with
  | some found =>
      rw [eq_of_calculationOf hfound]
      refine ⟨rfl, ?_⟩
      intro c hshows
      have htext := textResult_injective (Except.ok.inj hshows)
      exact Calculation.entry_eq_of_indented htext.symm
  | none =>
      intro c hshows
      have htext := Except.ok.inj hshows
      cases answer with
      | error failure => exact errorResult_ne_textResult _ _ htext
      | ok outcome =>
          obtain ⟨found, rfl⟩ :=
            Outcome.exists_eq_calculation_of_indented (textResult_injective htext)
          exact nomatch hfound

/-- A call that does not clean up offers the calculation that its result shows. -/
theorem run_offers {call : ToolCall} (h : call ≠ .cleanup) (now : Int) (service : Service)
    (id : Option Value) :
    ∃ found : Option Calculation, (run now call service).2 = service.offerAll found.toList ∧
      Told (Response.mk id (.ok (run now call service).1)).Shows found := by
  cases hcommand : call.command with
  | error reason =>
      rw [run, hcommand]
      refine ⟨none, rfl, ?_⟩
      intro c hshows
      exact errorResult_ne_textResult _ _ (Except.ok.inj hshows)
  | ok command =>
      have hother : command ≠ .cleanup := by
        rintro rfl
        exact h (ToolCall.eq_cleanup_of_command hcommand)
      rw [run, hcommand]
      exact ⟨_, Service.perform_eq_offerAll hother now service, told_resultOf id _⟩

/-- **The answer to a call and the history agree**: a call that does not clean up offers to the
history the calculation that its answer shows, and nothing if it shows none. -/
theorem handle_offers {text : String} (h : ¬ AsksForCleanup text) (now : Int) (service : Service) :
    ∃ found : Option Calculation,
      (handle now text service).service = service.offerAll found.toList ∧
        Told (handle now text service).response.Shows found := by
  cases hread : Json.decodeText Request.decoder text with
  | error fault =>
      rw [handle, hread]
      exact ⟨none, rfl, fun c hshows => nomatch hshows⟩
  | ok request =>
      rcases Plan.of_cases request with ⟨answer, hplan, hother⟩ |
        ⟨call, params, hplan, hmethod, hparams, hcall⟩
      · rw [handle, hread]
        dsimp only
        rw [hplan]
        exact ⟨none, rfl, fun c => hother _⟩
      · have hcleanup : call ≠ .cleanup := by
          rintro rfl
          exact h ⟨request, params, hread, hmethod, hparams, CallParams.name_eq_of_toolCall hcall⟩
        rw [handle, hread]
        dsimp only
        rw [hplan]
        exact run_offers hcleanup now service request.id

/-- Whatever is called, the service goes on running. -/
theorem isRunning_handle {capacity : Nat} {service : Service} (h : service.IsRunning capacity)
    (now : Int) (text : String) : (handle now text service).service.IsRunning capacity := by
  rw [handle]
  split
  · exact h
  · split
    · exact h
    · next call hplan =>
      show (run now call service).2.IsRunning capacity
      rw [run]
      split
      · exact h
      · exact h.perform now _

end Abacus.Rpc
