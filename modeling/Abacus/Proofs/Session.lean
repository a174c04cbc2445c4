import Abacus.Proofs.Http.Router
import Abacus.Proofs.Rpc.Handler
import Abacus.Session

/-!
# Session — the history is the record of the answers

Whatever door a step comes through, its answer says which calculations succeeded, and these are
what it offers to the recorder (`perform_offers`).  As long as the recorder is not shut down, each
step begins with an open recorder that holds nothing (`after_eq_start`), so the flush after a step
adds the rows of that step and of no other.
-/

namespace Abacus.Session

open History (Archive Row)

/-! ## What a step is, and what its answer tells -/

/-- The step is to change the rows itself: it puts one past the service, or asks for a cleanup. -/
def Step.Edits : Step → Prop
  | .seed _ | .ask .cleanup => True
  | .http request => request.AsksForCleanup
  | .call text => Rpc.AsksForCleanup text
  | .ask (.calculate _) | .ask (.history _) | .batch _ | .close => False

namespace Answer

/-- The answer shows the calculation, as its one result. -/
def Shows : Answer → Calculation → Prop
  | .service answer, c => answer = .ok (.calculation c)
  | .http response, c => response.Shows c
  | .call response, c => response.Shows c
  | .seeded _, _ | .batch _, _ | .closed, _ => False

/-- The calculations that the answer tells of, in order: of a batch those that succeed, and
otherwise the one that is shown, if one is.  They are told up to what the history keeps. -/
def Tells (answer : Answer) (found : List Calculation) : Prop :=
  match answer with
  | .batch answers => found = answers.filterMap Except.toOption
  | answer => ∃ one : Option Calculation, found = one.toList ∧ Told answer.Shows one

/-- The answer is an error: a failure of the service, a status other than 200, a fault of the call,
or a result that says that it is an error.  A batch is one when all of it fails. -/
def IsError : Answer → Prop
  | .service answer => ∃ failure, answer = .error failure
  | .batch answers => ∀ answer ∈ answers, ∃ failure, answer = .error failure
  | .http response => response.status ≠ 200
  | .call response => (∃ fault, response.answer = .error fault) ∨
      ∃ members, response.answer = .ok (.object members) ∧ ("isError", .bool true) ∈ members
  | .seeded outcome => ∃ fault, outcome = .error fault
  | .closed => False

/-- An error shows no calculation. -/
theorem IsError.not_shows {answer : Answer} (h : answer.IsError) (c : Calculation) :
    ¬ answer.Shows c := by
  intro hshows
  cases answer with
  | service answer =>
      obtain ⟨failure, rfl⟩ := h
      exact nomatch hshows
  | http response => exact h hshows.1
  | call response =>
      have hanswer : response.answer = .ok (Rpc.textResult c.toJson.indented) := hshows
      rcases h with ⟨fault, hfault⟩ | ⟨members, hmembers, hmem⟩
      · exact nomatch hfault.symm.trans hanswer
      · obtain rfl := Json.Value.object.inj (Except.ok.inj (hmembers.symm.trans hanswer))
        simp at hmem
  | seeded outcome => exact hshows
  | batch answers => exact hshows
  | closed => exact hshows

/-- An error tells of nothing. -/
theorem IsError.eq_nil {answer : Answer} (h : answer.IsError) {found : List Calculation}
    (htells : answer.Tells found) : found = [] := by
  -- all answers but that of a batch tell of at most one calculation
  have hsingle (hone : ∃ one : Option Calculation, found = one.toList ∧ Told answer.Shows one) :
      found = [] := by
    obtain ⟨one, rfl, htold⟩ := hone
    cases one with
    | none => rfl
    | some c => exact absurd htold.1 (h.not_shows c)
  cases answer with
  | batch answers =>
      rw [show found = answers.filterMap Except.toOption from htells, List.filterMap_eq_nil_iff]
      intro answer hmem
      obtain ⟨failure, rfl⟩ := h answer hmem
      rfl
  | service answer => exact hsingle htells
  | http response => exact hsingle htells
  | call response => exact hsingle htells
  | seeded outcome => exact hsingle htells
  | closed => exact hsingle htells

end Answer

/-! ## What a step offers -/

/-- A batch offers what succeeds. -/
theorem calculateAll_offers (service : Service) (requests : List Abacus.Request) :
    (calculateAll service requests).2 =
      service.offerAll ((calculateAll service requests).1.filterMap Except.toOption) := by
  induction requests generalizing service with
  | nil => rfl
  | cons request rest ih =>
      have hfirst := Service.calculate_eq_offerAll request service
      have hrest := ih (service.calculate request).2
      rw [calculateAll]
      dsimp only
      rw [hrest]
      -- what matters of the first calculation is its answer and that it was offered
      generalize (service.calculate request).2 = next at *
      generalize (service.calculate request).1 = answer at *
      rw [hfirst, ← Service.offerAll_append]
      cases answer with
      | ok found => rfl
      | error failure => rfl

/-- **What is answered is offered**: a step that does not edit the rows or shut the recorder down
offers to the recorder the calculations that its answer tells of, in their order. -/
theorem perform_offers {step : Step} (hstep : ¬ step.Edits) (hclose : step ≠ .close) (now : Int)
    (service : Service) :
    ∃ found, (step.perform now service).2 = service.offerAll found ∧
      (step.perform now service).1.Tells found := by
  cases step with
  | seed draft => exact absurd trivial hstep
  | ask command =>
      have hcommand : command ≠ .cleanup := by
        rintro rfl
        exact hstep trivial
      exact ⟨_, Service.perform_eq_offerAll hcommand now service, _, rfl, told_calculationOf _⟩
  | batch requests => exact ⟨_, calculateAll_offers service requests, rfl⟩
  | http request =>
      obtain ⟨found, hoffers, htold⟩ := Http.respond_offers hstep now service
      exact ⟨found.toList, hoffers, found, rfl, htold⟩
  | call text =>
      obtain ⟨found, hoffers, htold⟩ := Rpc.handle_offers hstep now service
      exact ⟨found.toList, hoffers, found, rfl, htold⟩
  | close => exact absurd rfl hclose

/-! ## Between the steps -/

/-- A step leaves a running service running, unless it shuts the recorder down. -/
theorem isRunning_perform {step : Step} (hclose : step ≠ .close) (now : Int) {capacity : Nat}
    {service : Service} (h : service.IsRunning capacity) :
    (step.perform now service).2.IsRunning capacity := by
  cases step with
  | seed draft =>
      obtain ⟨archive, waiting, rfl⟩ := h
      exact ⟨archive.insert draft, waiting, rfl⟩
  | ask command => exact h.perform now command
  | batch requests =>
      show (calculateAll service requests).2.IsRunning capacity
      rw [calculateAll_offers]
      exact h.offerAll _
  | http request => exact Http.isRunning_respond h now request
  | call text => exact Rpc.isRunning_handle h now text
  | close => exact absurd rfl hclose

/-- Before each step of a session that is not shut down, the service is as one that has just been
started: the recorder is open and holds nothing. -/
theorem after_eq_start (capacity : Nat) (archive : Archive) (steps : List (Int × Step))
    (hopen : ∀ timed ∈ steps, timed.2 ≠ .close) :
    ∃ before, after (.start (.working archive) capacity) steps =
      .start (.working before) capacity := by
  induction steps generalizing archive with
  | nil => exact ⟨archive, rfl⟩
  | cons timed rest ih =>
      have hclose := hopen timed (List.mem_cons_self ..)
      have hrunning := isRunning_perform hclose timed.1
        (Service.isRunning_start archive capacity)
      obtain ⟨next, hnext⟩ := hrunning.flush timed.1
      obtain ⟨before, hbefore⟩ :=
        ih next fun timed hmem => hopen timed (List.mem_cons_of_mem _ hmem)
      refine ⟨before, ?_⟩
      rw [← hbefore, ← hnext]
      rfl

/-! ## The rows after a step -/

/-- A step on a service that has just been started adds a row for each calculation that its
answer tells of, as far as there was room for it. -/
theorem advance_start {step : Step} (hstep : ¬ step.Edits) (now : Int) (capacity : Nat)
    (before : Archive) :
    ∃ later found added,
      (step.advance now (.start (.working before) capacity)).2.store = .working later ∧
        (step.advance now (.start (.working before) capacity)).1.Tells found ∧
        later.rows = before.rows ++ added ∧
        added.map Row.toDraft = (found.take (max capacity 1)).map fun c =>
          ⟨c.expression, c.formatted, c.mode.name, now⟩ := by
  by_cases hclose : step = .close
  · -- the recorder holds nothing, so shutting it down writes nothing
    rw [hclose]
    refine ⟨before, [], [], rfl, ⟨none, rfl, fun c hshows => hshows⟩, ?_, ?_⟩
    · rw [List.append_nil]
    · rw [List.take_nil]
      rfl
  · obtain ⟨found, hoffers, htells⟩ := perform_offers hstep hclose now
      (.start (.working before) capacity)
    rw [Service.start_offerAll] at hoffers
    obtain ⟨later, added, hlater, hrows, hadded⟩ := Service.flush_start now before capacity
      ((found.take (max capacity 1)).map Calculation.entry)
    refine ⟨later, found, added, ?_, htells, hrows, ?_⟩
    · rw [Step.advance]
      dsimp only
      rw [hoffers, hlater]
      rfl
    · rw [hadded, List.map_map]
      rfl

/-- **The history is the record of the answers.**  In a session over a working store whose
recorder is not shut down, a step that does not edit the rows leaves the rows that are there and
adds, in order, one for each calculation that its answer tells of, as far as the queue has room:
with the expression, the formatted result and the mode of the answer.  A step that is answered
with an error leaves the rows as they are. -/
theorem rows_after_step (archive : Archive) (capacity : Nat) (steps : List (Int × Step))
    (hopen : ∀ timed ∈ steps, timed.2 ≠ .close) (now : Int) (step : Step)
    (hstep : ¬ step.Edits) :
    ∃ before later found added,
      (after (.start (.working archive) capacity) steps).store = .working before ∧
        (step.advance now (after (.start (.working archive) capacity) steps)).2.store =
          .working later ∧
        (step.advance now (after (.start (.working archive) capacity) steps)).1.Tells found ∧
        later.rows = before.rows ++ added ∧
        added.map (fun row => (row.expression, row.result, row.mode)) =
          (found.take (max capacity 1)).map (fun c => (c.expression, c.formatted, c.mode.name)) ∧
        ((step.advance now (after (.start (.working archive) capacity) steps)).1.IsError →
          later.rows = before.rows) := by
  obtain ⟨before, hbefore⟩ := after_eq_start capacity archive steps hopen
  obtain ⟨later, found, added, hlater, htells, hrows, hadded⟩ :=
    advance_start hstep now capacity before
  rw [hbefore]
  refine ⟨before, later, found, added, rfl, hlater, htells, hrows, ?_, ?_⟩
  · have hshown := congrArg (List.map fun draft => (draft.expression, draft.result, draft.mode))
      hadded
    rw [List.map_map, List.map_map] at hshown
    exact hshown
  · intro herror
    have hnone := herror.eq_nil htells
    rw [hnone, List.take_nil, List.map_nil, List.map_eq_nil_iff] at hadded
    rw [hrows, hadded, List.append_nil]

/-- A calculation over HTTP, after a row was put past the service and a cleanup was made. -/
theorem rows_after_step_posted :
    let steps : List (Int × Step) := [(0, .seed ⟨"1+1", "2", "Standard", 0⟩), (1, .ask .cleanup)]
    let step := Step.http ⟨"POST", "/api/calculate", [("Content-Type", "application/json")],
      "\x7b\"expression\":\"6*7\"\x7d"⟩
    (∀ timed ∈ steps, timed.2 ≠ .close) ∧ ¬ step.Edits ∧
      ∃ before later found added,
        (after (.start (.working .empty) 0) steps).store = .working before ∧
          (step.advance 2 (after (.start (.working .empty) 0) steps)).2.store = .working later ∧
          (step.advance 2 (after (.start (.working .empty) 0) steps)).1.Tells found ∧
          later.rows = before.rows ++ added ∧
          added.map (fun row => (row.expression, row.result, row.mode)) =
            (found.take (max 0 1)).map (fun c => (c.expression, c.formatted, c.mode.name)) ∧
          ((step.advance 2 (after (.start (.working .empty) 0) steps)).1.IsError →
            later.rows = before.rows) := by
  intro steps step
  have hopen : ∀ timed ∈ steps, timed.2 ≠ .close := by
    simp [steps]
  have hstep : ¬ step.Edits := by
    rintro ⟨-, hpath⟩
    revert hpath
    decide +kernel
  exact ⟨hopen, hstep, rows_after_step .empty 0 steps hopen 2 step hstep⟩

example : ((after (.start (.working .empty) 0) [(0, .http ⟨"POST", "/api/calculate",
    [("Content-Type", "application/json")], "\x7b\"expression\":\"6*7\"\x7d"⟩)]).store.archive?.map
      fun archive => archive.rows) = some [⟨⟨"6*7", "42", "standard", 0⟩, 1⟩] := by
  decide +kernel

end Abacus.Session
