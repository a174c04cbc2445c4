import Abacus.Proofs.Except
import Abacus.Proofs.Http.Router
import Abacus.Proofs.Rpc.Handler
import Abacus.Session

/-!
# Independence — the history has no say in a calculation

A request for a calculation is answered before the history is told of it.  So its answer is the
same over every store, with any rows in it or none, and over every recorder, be it open, full or
shut down (`answer_eq`).  Two sessions with the same calculations give them the same answers,
whatever else happens in either of them (`answers_eq_of_calculations_eq`).
-/

namespace Abacus

/-! ## Over HTTP -/

namespace Http

/-- The request is posted to one of the two routes that calculate. -/
def Request.asksForCalculation (request : Request) : Bool :=
  request.method == "POST" &&
    (Route.ofPath? request.path == some .calculate ||
      Route.ofPath? request.path == some .scientific)

/-- A posted calculation is answered at once or asks the service to calculate. -/
theorem Plan.of_calculation {request : Request} (h : request.asksForCalculation = true) :
    (∃ response, Plan.of request = .reply response) ∨
      ∃ asked, Plan.of request = .perform (.calculate asked) := by
  obtain ⟨hmethod, hroute⟩ := Bool.and_eq_true_iff.mp h
  have hmethod : request.method = "POST" := beq_iff_eq.mp hmethod
  have hread (read : Except Rejection Abacus.Request) :
      (∃ response, ofRequest read = .reply response) ∨
        ∃ asked, ofRequest read = .perform (.calculate asked) := by
    rcases ofRequest_cases read with ⟨message, hreply⟩ | hperform
    · exact Or.inl ⟨_, hreply⟩
    · exact Or.inr hperform
  have hpost : request.method ∈ ["POST"] := List.mem_singleton.mpr hmethod
  rcases Bool.or_eq_true_iff.mp hroute with hpath | hpath
  · rw [of_isOn ⟨Route.path_eq_of_ofPath? (beq_iff_eq.mp hpath), hpost⟩]
    exact hread _
  · rw [of_isOn ⟨Route.path_eq_of_ofPath? (beq_iff_eq.mp hpath), hpost⟩]
    exact hread _

/-- The response to a posted calculation does not depend on the service or the time. -/
theorem response_eq {request : Request} (h : request.asksForCalculation = true) (now now' : Int)
    (first second : Service) :
    (respond now request first).1 = (respond now' request second).1 := by
  rcases Plan.of_calculation h with ⟨response, hplan⟩ | ⟨asked, hplan⟩
  · rw [respond_of_reply hplan, respond_of_reply hplan]
  · rw [respond_of_perform hplan, respond_of_perform hplan]
    simp only [Service.perform, Service.fst_calculate]

end Http

/-! ## By calls of tools -/

namespace Rpc

/-- The tool that a text calls, if it is a call of one. -/
def calledTool? (text : String) : Option Tool :=
  match Json.decodeText Request.decoder text with
  | .error _ => none
  | .ok request =>
      if request.method == "tools/call" then
        match CallParams.read request.params with
        | .error _ => none
        | .ok params => Tool.ofName? params.name
      else none

/-- The text is a call of one of the two tools that calculate. -/
def asksForCalculation (text : String) : Bool :=
  calledTool? text == some .calculate || calledTool? text == some .scientific

/-- The arguments of a tool that calculates are those of a calculation: the call asks for one, or
names a mode that there is not. -/
theorem ToolCall.command_cases {tool : Tool} (htool : tool = .calculate ∨ tool = .scientific)
    {nestings : Nat} {tree : Json.Tree} {call : ToolCall}
    (h : decoder tool nestings tree = .ok call) :
    (∃ reason, call.command = .error reason) ∨ ∃ asked, call.command = .ok (.calculate asked) := by
  rcases htool with rfl | rfl
  · obtain ⟨fields, -, h⟩ := bind_eq_ok_iff.mp h
    obtain ⟨expression, -, h⟩ := bind_eq_ok_iff.mp h
    obtain rfl := Except.ok.inj h
    cases fields.mode.join with
    | none => exact Or.inr ⟨_, rfl⟩
    | some text =>
        rw [command]
        split
        · exact Or.inr ⟨_, rfl⟩
        · exact Or.inl ⟨_, rfl⟩
  · obtain ⟨fields, -, h⟩ := bind_eq_ok_iff.mp h
    obtain ⟨value, -, h⟩ := bind_eq_ok_iff.mp h
    obtain ⟨operation, -, h⟩ := bind_eq_ok_iff.mp h
    obtain rfl := Except.ok.inj h
    exact Or.inr ⟨_, rfl⟩

/-- Running a call that asks for a calculation, or for nothing there is, gives a result that does
not depend on the service or the time. -/
theorem fst_run_eq {call : ToolCall}
    (h : (∃ reason, call.command = .error reason) ∨
      ∃ asked, call.command = .ok (.calculate asked))
    (now now' : Int) (first second : Service) :
    (run now call first).1 = (run now' call second).1 := by
  rcases h with ⟨reason, h⟩ | ⟨asked, h⟩
  · rw [run, run, h]
  · rw [run, run, h]
    simp only [Service.perform, Service.fst_calculate]

/-- The answer to a call of a tool that calculates does not depend on the service or the time. -/
theorem response_eq {text : String} (h : asksForCalculation text = true) (now now' : Int)
    (first second : Service) :
    (handle now text first).response = (handle now' text second).response := by
  have htool : ∃ tool, calledTool? text = some tool ∧ (tool = .calculate ∨ tool = .scientific) := by
    rcases Bool.or_eq_true_iff.mp h with h | h
    · exact ⟨_, beq_iff_eq.mp h, Or.inl rfl⟩
    · exact ⟨_, beq_iff_eq.mp h, Or.inr rfl⟩
  obtain ⟨tool, hcalled, htool⟩ := htool
  rw [handle, handle]
  cases hread : Json.decodeText Request.decoder text with
  | error fault => rfl
  | ok request =>
      rcases Plan.of_cases request with ⟨answer, hplan, -⟩ |
        ⟨call, params, hplan, hmethod, hparams, hcall⟩
      · simp only [hplan]
      · -- the call that is run is one of the tool that is named
        have hname : Tool.ofName? params.name = some tool := by
          simpa [calledTool?, hread, hmethod, hparams] using hcalled
        rw [CallParams.toolCall, hname] at hcall
        have hcases := ToolCall.command_cases htool (mapError_eq_ok_iff.mp hcall)
        simp only [hplan]
        rw [fst_run_eq hcases now now' first second]

end Rpc

/-! ## In a session -/

namespace Session

/-- The step asks for calculations and for nothing else. -/
def Step.asksForCalculation : Step → Bool
  | .ask (.calculate _) | .batch _ => true
  | .http request => request.asksForCalculation
  | .call text => Rpc.asksForCalculation text
  | .ask (.history _) | .ask .cleanup | .seed _ | .close => false

/-- The answers of a batch are those to its requests, one by one. -/
theorem fst_calculateAll (service : Service) (requests : List Abacus.Request) :
    (calculateAll service requests).1 = requests.map Request.calculate := by
  induction requests generalizing service with
  | nil => rfl
  | cons request rest ih =>
      rw [calculateAll, List.map_cons]
      dsimp only
      rw [Service.fst_calculate, ih]

/-- **The answer to a calculation depends on the request alone**, not on the service that is asked
or on the time. -/
theorem answer_eq {step : Step} (h : step.asksForCalculation = true) (now now' : Int)
    (first second : Service) : (step.perform now first).1 = (step.perform now' second).1 := by
  cases step with
  | seed draft => exact absurd h Bool.false_ne_true
  | ask command =>
      cases command with
      | calculate request => simp only [Step.perform, Service.perform, Service.fst_calculate]
      | history limit => exact absurd h Bool.false_ne_true
      | cleanup => exact absurd h Bool.false_ne_true
  | batch requests => simp only [Step.perform, fst_calculateAll]
  | http request => exact congrArg Answer.http (Http.response_eq h now now' first second)
  | call text => exact congrArg Answer.call (Rpc.response_eq h now now' first second)
  | close => exact absurd h Bool.false_ne_true

/-- What happens at one moment of a session whose writer works whenever its turn comes. -/
inductive Moment where
  | asked (step : Step)
  /-- The writer writes the entry in its hand, or takes the next one that waits. -/
  | turn
  /-- The writer writes all that is pending. -/
  | flush
  /-- The store is changed from outside, or can or cannot be used any more. -/
  | replaced (store : History.Store)

/-- A moment at the given time: the answer if it is a step, and the service after it. -/
def Moment.pass (now : Int) (service : Service) : Moment → Option Answer × Service
  | .asked step =>
      let (answer, next) := step.perform now service
      (some answer, next)
  | .turn =>
      let (_, recorder, store) := service.recorder.work History.Store.sink now service.store
      (none, ⟨store, recorder⟩)
  | .flush => (none, service.flush now)
  | .replaced store => (none, { service with store := store })

/-- The step of the moment, if it asks for calculations. -/
def Moment.calculation? : Moment → Option Step
  | .asked step => if step.asksForCalculation then some step else none
  | .turn | .flush | .replaced _ => none

theorem Moment.calculation?_asked {step : Step} (h : step.asksForCalculation = true) :
    (Moment.asked step).calculation? = some step :=
  if_pos h

/-- A moment with a calculation is a step that asks for it. -/
theorem Moment.eq_asked {moment : Moment} {step : Step} (h : moment.calculation? = some step) :
    moment = .asked step ∧ step.asksForCalculation = true := by
  cases moment with
  | asked other =>
      rw [calculation?] at h
      split at h
      · next hasks =>
        obtain rfl := Option.some.inj h
        exact ⟨rfl, hasks⟩
      · exact nomatch h
  | turn => exact nomatch h
  | flush => exact nomatch h
  | replaced store => exact nomatch h

/-- The steps of a session that ask for calculations, in order. -/
def calculations (moments : List (Int × Moment)) : List Step :=
  (moments.map Prod.snd).filterMap Moment.calculation?

theorem calculations_cons (timed : Int × Moment) (rest : List (Int × Moment)) :
    calculations (timed :: rest) = timed.2.calculation?.toList ++ calculations rest := by
  rw [calculations, List.map_cons]
  cases h : timed.2.calculation? with
  | none => exact List.filterMap_cons_none h
  | some step => exact List.filterMap_cons_some h

/-- The answers to the calculations of a session that begins with the given service. -/
def answers (service : Service) : List (Int × Moment) → List Answer
  | [] => []
  | (now, moment) :: rest =>
      let (answer, next) := moment.pass now service
      (if moment.calculation?.isSome then answer.toList else []) ++ answers next rest

/-- What a step is answered at the start of things; for a calculation, what it is answered at any
time. -/
def Step.answer (step : Step) : Answer :=
  (step.perform 0 (.start .empty Service.defaultCapacity)).1

/-- Whatever happens between them, each calculation is answered as it would be at the start. -/
theorem answers_eq_map (service : Service) (moments : List (Int × Moment)) :
    answers service moments = (calculations moments).map Step.answer := by
  induction moments generalizing service with
  | nil => rfl
  | cons timed rest ih =>
      obtain ⟨now, moment⟩ := timed
      -- whatever the moment does to the service, the later answers are the same
      rw [answers, calculations_cons, List.map_append]
      dsimp only
      rw [ih]
      cases hcalculation : moment.calculation? with
      | none => rfl
      | some step =>
          obtain ⟨rfl, hasks⟩ := Moment.eq_asked hcalculation
          have hanswer : (step.perform now service).1 = step.answer :=
            answer_eq hasks now 0 service _
          show [(step.perform now service).1] ++ _ = [step.answer] ++ _
          rw [hanswer]

/-- **The history never changes or fails a calculation.**  Two sessions with the same calculations
answer them alike: over any stores, with any rows in them or unable to be used, behind recorders of
any capacity that are open, full or shut down, and whatever else happens in between. -/
theorem answers_eq_of_calculations_eq {moments moments' : List (Int × Moment)}
    (h : calculations moments = calculations moments') (first second : Service) :
    answers first moments = answers second moments' := by
  rw [answers_eq_map, answers_eq_map, h]

/-- A full queue that is shut down later, in front of a store with a row in it, and a closed queue
in front of a store that cannot be opened. -/
theorem answers_eq_of_calculations_eq_disk_full :
    let posted := Step.http ⟨"POST", "/api/calculate", [("Content-Type", "application/json")],
      "\x7b\"expression\":\"6*7\"\x7d"⟩
    let called := Step.call ("\x7b\"jsonrpc\":\"2.0\",\"id\":1,\"method\":\"tools/call\"," ++
      "\"params\":\x7b\"name\":\"calculate\",\"arguments\":\x7b\"expression\":\"1/0\"\x7d\x7d\x7d")
    let moments := [(0, .asked posted), (1, .turn), (1, .asked .close), (2, .asked called)]
    let moments' := [(5, .asked (.seed ⟨"1", "1", "graphing", 4⟩)), (6, .asked posted),
      (6, .replaced .empty), (7, .asked (.ask .cleanup)), (7, .asked called), (7, .flush)]
    (calculations moments).length = 2 ∧ calculations moments = calculations moments' ∧
      answers ⟨.working (History.Archive.empty.insert ⟨"1+1", "2", "standard", 0⟩),
          { History.Recorder.start 1 with waiting := [⟨"2+2", "4", .standard⟩] }⟩ moments =
        answers ⟨.unavailable "disk full",
          { History.Recorder.start 0 with isClosed := true }⟩ moments' := by
  intro posted called moments moments'
  have hposted : (Moment.asked posted).calculation? = some posted :=
    Moment.calculation?_asked (by decide +kernel)
  have hcalled : (Moment.asked called).calculation? = some called :=
    Moment.calculation?_asked (by decide +kernel)
  have hfirst : calculations moments = [posted, called] := by
    simp only [moments, calculations_cons, hposted, hcalled]
    rfl
  have hsecond : calculations moments' = [posted, called] := by
    simp only [moments', calculations_cons, hposted, hcalled]
    rfl
  refine ⟨congrArg List.length hfirst, hfirst.trans hsecond.symm, ?_⟩
  exact answers_eq_of_calculations_eq (hfirst.trans hsecond.symm) _ _

end Session

end Abacus
