import Abacus.Proofs.History.Recent
import Abacus.Proofs.Result
import Abacus.Proofs.Session
import Abacus.Proofs.Session.Independence

/-!
# Results in a session — every answer is finite, and every row can be read

Whatever door a step comes through, a calculation in its answer is one that succeeded, and what the
recorder is offered are calculations in its answer (`perform_cases`).  A session that starts without
rows and puts none past the service therefore holds rows of two kinds only: those that the store was
given as entries, and those of calculations that were answered (`exists_isSettled_after`).  So the
results are finite, their texts are read to the last character, and every row has a mode that there
is.
-/

namespace Abacus

open History (Archive Draft Recorder Row Store)

/-! ## Entries on their way -/

namespace History.Recorder

/-- A queue that is shut takes no entries. -/
theorem foldl_offer_of_isClosed {recorder : Recorder} (h : recorder.isClosed = true)
    (entries : List Entry) : entries.foldl (fun r e => r.offer e) recorder = recorder := by
  induction entries with
  | nil => rfl
  | cons entry rest ih =>
      have hrefuses : ¬ recorder.accepts = true := by simp [accepts, h]
      rw [List.foldl_cons, offer, if_neg hrefuses, ih]

/-- What is pending after some offers was pending before or is one of them. -/
theorem mem_pending_foldl_offer {recorder : Recorder} {entries : List Entry} {entry : Entry}
    (h : entry ∈ (entries.foldl (fun r e => r.offer e) recorder).pending) :
    entry ∈ recorder.pending ∨ entry ∈ entries := by
  induction entries generalizing recorder with
  | nil => exact Or.inl h
  | cons first rest ih =>
      rcases ih h with hbefore | hrest
      · have hbefore : entry ∈ (recorder.offer first).pending := hbefore
        rw [offer] at hbefore
        split at hbefore
        · have hpending : entry ∈ recorder.pending ∨ entry = first := by
            simpa [pending, or_assoc] using hbefore
          rcases hpending with hbefore | rfl
          · exact Or.inl hbefore
          · exact Or.inr List.mem_cons_self
        · exact Or.inl hbefore
      · exact Or.inr (List.mem_cons_of_mem first hrest)

theorem isClosed_foldl_offer (recorder : Recorder) (entries : List Entry) :
    (entries.foldl (fun r e => r.offer e) recorder).isClosed = recorder.isClosed := by
  induction entries generalizing recorder with
  | nil => rfl
  | cons first rest ih =>
      rw [List.foldl_cons, ih, offer]
      split <;> rfl

end History.Recorder

namespace Service

/-- The store works, and the recorder has nothing to write. -/
structure IsSettled (service : Service) (archive : Archive) : Prop where
  store : service.store = .working archive
  pending : service.recorder.pending = []

theorem isSettled_start (archive : Archive) (capacity : Nat) :
    (start (.working archive) capacity).IsSettled archive :=
  ⟨rfl, rfl⟩

/-- A flush writes a row for each pending entry and leaves a settled service. -/
theorem exists_isSettled_flush {service : Service} {archive : Archive}
    (hstore : service.store = .working archive)
    (hclosed : service.recorder.isClosed = true → service.recorder.pending = []) (now : Int) :
    ∃ later, (service.flush now).IsSettled later ∧ ∀ row ∈ later.rows, row ∈ archive.rows ∨
      ∃ entry ∈ service.recorder.pending, row.toDraft = .ofEntry entry now := by
  rw [flush]
  split
  · next h => exact ⟨archive, ⟨hstore, hclosed h⟩, fun row hrow => Or.inl hrow⟩
  · obtain ⟨later, added, hlater, hrows, hadded⟩ :=
      History.exists_foldl_attempt now archive service.recorder.pending
    refine ⟨later, ⟨?_, rfl⟩, fun row hrow => ?_⟩
    · show service.recorder.pending.foldl (Recorder.attempt Store.sink now) service.store = _
      rw [hstore, hlater]
    · rw [hrows] at hrow
      rcases List.mem_append.mp hrow with hbefore | hrow
      · exact Or.inl hbefore
      · right
        have hdraft : row.toDraft ∈ added.map Row.toDraft := List.mem_map_of_mem hrow
        rw [hadded] at hdraft
        obtain ⟨entry, hentry, heq⟩ := List.mem_map.mp hdraft
        exact ⟨entry, hentry, heq.symm⟩

/-! ## What the service is asked to write -/

/-- The service is left to clean up its rows, or to write calculations that are shown. -/
def Writes (now : Int) (shows : Calculation → Prop) (service next : Service) : Prop :=
  next = (service.cleanup now).2 ∨ ∃ found, (∀ c ∈ found, shows c) ∧ next = service.offerAll found

/-- Only a calculation that succeeds is answered. -/
theorem exists_calculate_of_calculationOf {now : Int} {command : Command} {service : Service}
    {c : Calculation} (h : calculationOf (service.perform now command).1 = some c) :
    ∃ request, Request.calculate request = .ok c := by
  cases command with
  | calculate request =>
      rw [perform_calculate] at h
      obtain ⟨found, hfound, heq⟩ := map_eq_ok_iff.mp (eq_of_calculationOf h)
      obtain rfl := Outcome.calculation.inj heq
      exact ⟨request, hfound⟩
  | history limit =>
      rw [calculationOf_history] at h
      exact nomatch h
  | cleanup =>
      rw [calculationOf_cleanup] at h
      exact nomatch h

/-- An answer that tells of what the service answers shows only calculations that succeeded, and the
service has only those to write. -/
theorem writes_of_told {shows : Calculation → Prop} {now : Int} {command : Command}
    {service : Service} (h : Told shows (calculationOf (service.perform now command).1))
    (hsame : ∀ c d, shows c → shows d → d.result.isFinite = true → c = d) :
    (∀ c, shows c → ∃ request, Request.calculate request = .ok c) ∧
      service.Writes now shows (service.perform now command).2 := by
  cases hfound : calculationOf (service.perform now command).1 with
  | none =>
      rw [hfound] at h
      refine ⟨fun c hshows => absurd hshows (h c), ?_⟩
      by_cases hcleanup : command = .cleanup
      · rw [hcleanup]
        exact Or.inl rfl
      · rw [perform_eq_offerAll hcleanup, hfound]
        exact Or.inr ⟨[], fun c hc => (List.not_mem_nil hc).elim, rfl⟩
  | some found =>
      rw [hfound] at h
      obtain ⟨request, hrequest⟩ := exists_calculate_of_calculationOf hfound
      have hfinite := (Calculation.isSound_of_calculate hrequest).finite
      refine ⟨fun c hshows => ⟨request, ?_⟩, ?_⟩
      · rw [hsame c found hshows h.1 hfinite, hrequest]
      · have hcommand : command ≠ .cleanup := by
          rintro rfl
          rw [calculationOf_cleanup] at hfound
          exact nomatch hfound
        rw [perform_eq_offerAll hcommand, hfound]
        refine Or.inr ⟨[found], fun c hc => ?_, rfl⟩
        rw [List.mem_singleton.mp hc]
        exact h.1

end Service

/-! ## What the doors show -/

namespace Http

/-- A response shows one calculation at most. -/
theorem Response.Shows.eq {response : Response} {c d : Calculation} (hc : response.Shows c)
    (hd : response.Shows d) (hfinite : d.result.isFinite = true) : c = d :=
  Calculation.eq_of_compact hfinite (hc.2.symm.trans hd.2)

/-- A response shows only a calculation that succeeded, and the service has only that to write. -/
theorem respond_writes (now : Int) (request : Request) (service : Service) :
    (∀ c, (respond now request service).1.Shows c →
        ∃ asked, Abacus.Request.calculate asked = .ok c) ∧
      service.Writes now (respond now request service).1.Shows (respond now request service).2 := by
  have hsame (command : Command) (h : Told (respond now request service).1.Shows
      (calculationOf (service.perform now command).1)) :=
    Service.writes_of_told h fun c d => Response.Shows.eq
  rcases Plan.of_cases request with ⟨response, hplan, hplain⟩ | ⟨asked, hplan, hpost⟩ |
    ⟨limit, hplan⟩ | ⟨hplan, -⟩
  · rw [respond_of_reply hplan]
    exact ⟨fun c hshows => absurd hshows (hplain.not_shows request c),
      Or.inr ⟨[], fun c hc => (List.not_mem_nil hc).elim, rfl⟩⟩
  · rw [respond_of_perform hplan] at hsame ⊢
    exact hsame _ (told_responseOf hpost _)
  · rw [respond_of_perform hplan] at hsame ⊢
    refine hsame (.history limit) ?_
    rw [Service.calculationOf_history]
    exact not_shows_responseOf (Service.calculationOf_history now limit service) request
  · rw [respond_of_perform hplan] at hsame ⊢
    refine hsame .cleanup ?_
    rw [Service.calculationOf_cleanup]
    exact not_shows_responseOf (Service.calculationOf_cleanup now service) request

end Http

namespace Rpc

/-- A call is answered with one calculation at most. -/
theorem Response.Shows.eq {response : Response} {c d : Calculation} (hc : response.Shows c)
    (hd : response.Shows d) (hfinite : d.result.isFinite = true) : c = d :=
  Calculation.eq_of_indented hfinite (textResult_injective (Except.ok.inj (hc.symm.trans hd)))

/-- A call is answered only with a calculation that succeeded, and the service has only that to
write. -/
theorem handle_writes (now : Int) (text : String) (service : Service) :
    (∀ c, (handle now text service).response.Shows c →
        ∃ asked, Abacus.Request.calculate asked = .ok c) ∧
      service.Writes now (handle now text service).response.Shows (handle now text service).service := by
  have hnothing {shows : Calculation → Prop} (h : ∀ c, ¬ shows c) :
      (∀ c, shows c → ∃ asked, Abacus.Request.calculate asked = .ok c) ∧
        service.Writes now shows service :=
    ⟨fun c hshows => absurd hshows (h c), Or.inr ⟨[], fun c hc => (List.not_mem_nil hc).elim, rfl⟩⟩
  cases hread : Json.decodeText Request.decoder text with
  | error fault =>
      rw [handle, hread]
      refine hnothing fun c hshows => ?_
      cases hshows
  | ok request =>
      rcases Plan.of_cases request with ⟨answer, hplan, hother⟩ | ⟨call, params, hplan, -⟩
      · rw [handle, hread]
        dsimp only
        rw [hplan]
        exact hnothing fun c => hother _
      · rw [handle, hread]
        dsimp only
        rw [hplan]
        dsimp only
        rw [run]
        split
        · exact hnothing fun c hshows => errorResult_ne_textResult _ _ (Except.ok.inj hshows)
        · exact Service.writes_of_told (told_resultOf request.id _) fun c d => Response.Shows.eq

end Rpc

namespace Session

/-! ## Steps -/

/-- The answer has the calculation in it: it shows it, or it is one of a batch. -/
def Answer.Carries : Answer → Calculation → Prop
  | .batch answers, c => .ok c ∈ answers
  | answer, c => answer.Shows c

/-- A step puts a row into the store, or shuts the recorder down, or has only calculations in its
answer that succeeded and leaves only these to be written. -/
theorem perform_cases (now : Int) (step : Step) (service : Service) :
    (∀ c, (step.perform now service).1.Carries c → ∃ asked, Abacus.Request.calculate asked = .ok c) ∧
      ((∃ draft, step = .seed draft) ∨ step = .close ∨
        service.Writes now (step.perform now service).1.Carries (step.perform now service).2) := by
  cases step with
  | seed draft => exact ⟨fun c hcarries => hcarries.elim, Or.inl ⟨draft, rfl⟩⟩
  | ask command =>
      obtain ⟨hcarries, hwrites⟩ := Service.writes_of_told
        (told_calculationOf (service.perform now command).1) (by
          rintro c d hc hd -
          exact Outcome.calculation.inj (Except.ok.inj (hc.symm.trans hd)))
      exact ⟨hcarries, Or.inr (Or.inr hwrites)⟩
  | batch requests =>
      refine ⟨fun c hcarries => ?_, Or.inr (Or.inr (Or.inr ⟨_, ?_, calculateAll_offers service requests⟩))⟩
      · have hmem : Except.ok c ∈ (calculateAll service requests).1 := hcarries
        rw [fst_calculateAll] at hmem
        obtain ⟨request, -, hrequest⟩ := List.mem_map.mp hmem
        exact ⟨request, hrequest⟩
      · intro c hc
        obtain ⟨answer, hanswer, hfound⟩ := List.mem_filterMap.mp hc
        cases answer with
        | error failure => exact nomatch hfound
        | ok found =>
            obtain rfl := Option.some.inj hfound
            exact hanswer
  | http request =>
      obtain ⟨hcarries, hwrites⟩ := Http.respond_writes now request service
      exact ⟨hcarries, Or.inr (Or.inr hwrites)⟩
  | call text =>
      obtain ⟨hcarries, hwrites⟩ := Rpc.handle_writes now text service
      exact ⟨hcarries, Or.inr (Or.inr hwrites)⟩
  | close => exact ⟨fun c hcarries => hcarries.elim, Or.inr (Or.inl rfl)⟩

/-- **A step on a settled service** leaves a settled one, and each of its rows was there before, was
put by the step itself, or is that of a calculation in the answer. -/
theorem exists_isSettled_advance {service : Service} {archive : Archive}
    (h : service.IsSettled archive) (now : Int) (step : Step) :
    ∃ later, (step.advance now service).2.IsSettled later ∧ ∀ row ∈ later.rows,
      row ∈ archive.rows ∨ step = .seed row.toDraft ∨
        ∃ c, (step.advance now service).1.Carries c ∧ row.toDraft = .ofEntry c.entry now := by
  have hnothing (next : Service) (kept : Archive) (hstore : next.store = .working kept)
      (hpending : next.recorder.pending = []) :
      ∃ later, (next.flush now).IsSettled later ∧ ∀ row ∈ later.rows, row ∈ kept.rows := by
    obtain ⟨later, hsettled, hrows⟩ := Service.exists_isSettled_flush hstore (fun _ => hpending) now
    refine ⟨later, hsettled, fun row hrow => (hrows row hrow).resolve_right ?_⟩
    rintro ⟨entry, hentry, -⟩
    rw [hpending] at hentry
    exact List.not_mem_nil hentry
  rcases (perform_cases now step service).2 with ⟨draft, rfl⟩ | rfl | hcleanup | ⟨found, hfound, hnext⟩
  · obtain ⟨later, hsettled, hrows⟩ := hnothing
      { service with store := (Store.sink draft service.store).2 } (archive.insert draft) (by rw [h.store]; rfl) h.pending
    refine ⟨later, hsettled, fun row hrow => ?_⟩
    rcases List.mem_append.mp (hrows row hrow) with hbefore | hnew
    · exact Or.inl hbefore
    · obtain rfl := List.mem_singleton.mp hnew
      exact Or.inr (Or.inl rfl)
  · obtain ⟨later, hsettled, hrows⟩ := hnothing (service.close now) archive (by
      show service.recorder.pending.foldl (Recorder.attempt Store.sink now) service.store = _
      rw [h.pending, h.store]
      rfl) rfl
    exact ⟨later, hsettled, fun row hrow => Or.inl (hrows row hrow)⟩
  · have hcleaned : (service.cleanup now).2 =
        { service with store := .working (archive.newerThan (History.cutoff now)) } := by
      rw [Service.cleanup, h.store]
      rfl
    obtain ⟨later, hsettled, hrows⟩ := hnothing (service.cleanup now).2
      (archive.newerThan (History.cutoff now)) (by rw [hcleaned]) (by rw [hcleaned, h.pending])
    rw [← hcleanup] at hsettled
    exact ⟨later, hsettled, fun row hrow => Or.inl (List.mem_filter.mp (hrows row hrow)).1⟩
  · have hclosed : (service.offerAll found).recorder.isClosed = true →
        (service.offerAll found).recorder.pending = [] := by
      intro hclosed
      rw [Service.offerAll] at hclosed ⊢
      rw [Recorder.isClosed_foldl_offer] at hclosed
      rw [Recorder.foldl_offer_of_isClosed hclosed, h.pending]
    obtain ⟨later, hsettled, hrows⟩ := Service.exists_isSettled_flush
      (show (service.offerAll found).store = .working archive from h.store) hclosed now
    rw [← hnext] at hsettled
    refine ⟨later, hsettled, fun row hrow => ?_⟩
    rcases hrows row hrow with hbefore | ⟨entry, hentry, hdraft⟩
    · exact Or.inl hbefore
    · rcases Recorder.mem_pending_foldl_offer hentry with hpending | hentry
      · rw [h.pending] at hpending
        exact (List.not_mem_nil hpending).elim
      · obtain ⟨c, hc, rfl⟩ := List.mem_map.mp hentry
        exact Or.inr (Or.inr ⟨c, hfound c hc, hdraft⟩)

/-! ## Sessions -/

/-- The step puts no row past the interface of the store: what it puts is an entry at some time. -/
def Step.KeepsToEntries : Step → Prop
  | .seed draft => ∃ entry now, draft = .ofEntry entry now
  | .ask _ | .batch _ | .http _ | .call _ | .close => True

/-- The row is that of a calculation in the answer to a step of the session. -/
def IsRecorded (service : Service) (steps : List (Int × Step)) (row : Row) (c : Calculation) : Prop :=
  ∃ earlier now step later, steps = earlier ++ (now, step) :: later ∧
    (step.advance now (after service earlier)).1.Carries c ∧ row.toDraft = .ofEntry c.entry now

theorem after_append (service : Service) (steps : List (Int × Step)) (now : Int) (step : Step) :
    after service (steps ++ [(now, step)]) = (step.advance now (after service steps)).2 := by
  rw [after, List.foldl_append]
  rfl

/-- What was recorded stays recorded when the session goes on. -/
theorem IsRecorded.append {service : Service} {steps : List (Int × Step)} {row : Row}
    {c : Calculation} (h : IsRecorded service steps row c) (more : List (Int × Step)) :
    IsRecorded service (steps ++ more) row c := by
  obtain ⟨earlier, now, step, later, rfl, hcarries, hdraft⟩ := h
  exact ⟨earlier, now, step, later ++ more, by simp, hcarries, hdraft⟩

/-- **The rows of a session** were there before, were put by a step, or are recorded. -/
theorem exists_isSettled_after {service : Service} {archive : Archive}
    (h : service.IsSettled archive) (steps : List (Int × Step)) :
    ∃ later, (after service steps).IsSettled later ∧ ∀ row ∈ later.rows,
      row ∈ archive.rows ∨ (∃ timed ∈ steps, timed.2 = .seed row.toDraft) ∨
        ∃ c, IsRecorded service steps row c := by
  induction steps using List.reverseRecOn with
  | nil => exact ⟨archive, h, fun row hrow => Or.inl hrow⟩
  | append_singleton steps last ih =>
      obtain ⟨now, step⟩ := last
      obtain ⟨before, hbefore, horigin⟩ := ih
      obtain ⟨later, hlater, hrows⟩ := exists_isSettled_advance hbefore now step
      refine ⟨later, by rwa [after_append], fun row hrow => ?_⟩
      rcases hrows row hrow with hold | hseed | ⟨c, hcarries, hdraft⟩
      · rcases horigin row hold with hfirst | ⟨timed, htimed, hseed⟩ | ⟨c, hc⟩
        · exact Or.inl hfirst
        · exact Or.inr (Or.inl ⟨timed, List.mem_append_left _ htimed, hseed⟩)
        · exact Or.inr (Or.inr ⟨c, hc.append _⟩)
      · exact Or.inr (Or.inl ⟨(now, step), List.mem_append_right _ List.mem_cons_self, hseed⟩)
      · exact Or.inr (Or.inr ⟨c, steps, now, step, [], rfl, hcarries, hdraft⟩)

/-- A calculation in an answer has a finite result, and is shown by its text. -/
theorem isSound_of_carries {now : Int} {step : Step} {service : Service} {c : Calculation}
    (h : (step.advance now service).1.Carries c) : c.IsSound := by
  obtain ⟨asked, hasked⟩ := (perform_cases now step service).1 c h
  exact Calculation.isSound_of_calculate hasked

/-- **Results are finite and can be read again.**  In a session that starts without rows and puts none
past the interface of the store, every row was put as an entry or is that of a calculation in an
answer.  The text of such a row is that of the finite result answered, is not the word for an error
and is read to its last character.  Every calculation in an answer has a finite result, which its JSON
holds as a numeral.  And the history never fails for a mode that there is not, whatever is asked of
it. -/
theorem results_are_finite (capacity : Nat) (steps : List (Int × Step))
    (hsteps : ∀ timed ∈ steps, timed.2.KeepsToEntries) :
    ∃ archive, (after (.start .empty capacity) steps).store = .working archive ∧
      (∀ row ∈ archive.rows, (∃ timed ∈ steps, timed.2 = .seed row.toDraft) ∨
        ∃ c, IsRecorded (.start .empty capacity) steps row c) ∧
      (∀ row c, IsRecorded (.start .empty capacity) steps row c →
        c.result.isFinite = true ∧ row.result = Display.result c.result ∧ row.result ≠ "Error" ∧
          ∃ w, Decimal.readWritten Text.isDecimalDigit row.result.toList = some (w, []) ∧
            Number.parse row.result = some w.toDouble) ∧
      (∀ now step c, (Step.advance now (after (.start .empty capacity) steps) step).1.Carries c →
        c.result.isFinite = true ∧ c.formatted = Display.result c.result ∧
          ∃ n, Json.IsNumeral (Json.Number.double c.result).write n) ∧
      ∀ limit cutoff mode,
        (after (.start .empty capacity) steps).store.recent limit cutoff ≠
          .error (.unknownMode mode) := by
  have hstart : (Service.start .empty capacity).IsSettled .empty :=
    Service.isSettled_start .empty capacity
  obtain ⟨archive, hsettled, horigin⟩ := exists_isSettled_after hstart steps
  have hrows (row : Row) (hrow : row ∈ archive.rows) :
      (∃ timed ∈ steps, timed.2 = .seed row.toDraft) ∨
        ∃ c, IsRecorded (.start .empty capacity) steps row c := by
    rcases horigin row hrow with hnone | horigin
    · exact (List.not_mem_nil hnone).elim
    · exact horigin
  refine ⟨archive, hsettled.store, hrows, fun row c hrecorded => ?_, fun now step c hcarries => ?_, ?_⟩
  · obtain ⟨earlier, now, step, later, -, hcarries, hdraft⟩ := hrecorded
    have hsound := isSound_of_carries hcarries
    have hresult : row.result = c.formatted := congrArg Draft.result hdraft
    rw [hresult]
    exact ⟨hsound.finite, hsound.formatted, hsound.read⟩
  · have hsound := isSound_of_carries hcarries
    exact ⟨hsound.finite, hsound.formatted, Json.Number.exists_isNumeral_write hsound.finite⟩
  · -- both kinds of rows are put under the name of a mode
    have hmodes : ∀ row ∈ archive.rows, ∃ mode : Mode, row.mode = mode.name := by
      intro row hmem
      rcases hrows row hmem with ⟨timed, htimed, hseed⟩ | ⟨c, earlier, now, step, later, -, -, hdraft⟩
      · have hkeeps := hsteps timed htimed
        rw [hseed] at hkeeps
        obtain ⟨entry, now, hdraft⟩ := hkeeps
        exact ⟨entry.mode, congrArg Draft.mode hdraft⟩
      · exact ⟨c.mode, congrArg Draft.mode hdraft⟩
    intro limit cutoff mode hfault
    obtain ⟨records, hrecords⟩ := Store.exists_recent hmodes limit cutoff
    rw [hsettled.store, hrecords] at hfault
    exact nomatch hfault

/-- An entry that the store is given, a calculation over HTTP that is undefined on the way and fails,
and one that succeeds after the recorder was shut down. -/
theorem results_are_finite_shut_down :
    let steps : List (Int × Step) := [(0, .seed (.ofEntry ⟨"1+1", "2", .standard⟩ 0)),
      (1, .http ⟨"POST", "/api/calculate", [("Content-Type", "application/json")],
        "\x7b\"expression\":\"0/0*2\"\x7d"⟩),
      (2, .close), (3, .ask (.calculate (.expression "6*7" .standard)))]
    (∀ timed ∈ steps, timed.2.KeepsToEntries) ∧
      ∃ archive, (after (.start .empty 8) steps).store = .working archive ∧
        (∀ row ∈ archive.rows, (∃ timed ∈ steps, timed.2 = .seed row.toDraft) ∨
          ∃ c, IsRecorded (.start .empty 8) steps row c) ∧
        (∀ row c, IsRecorded (.start .empty 8) steps row c →
          c.result.isFinite = true ∧ row.result = Display.result c.result ∧ row.result ≠ "Error" ∧
            ∃ w, Decimal.readWritten Text.isDecimalDigit row.result.toList = some (w, []) ∧
              Number.parse row.result = some w.toDouble) ∧
        (∀ now step c, (Step.advance now (after (.start .empty 8) steps) step).1.Carries c →
          c.result.isFinite = true ∧ c.formatted = Display.result c.result ∧
            ∃ n, Json.IsNumeral (Json.Number.double c.result).write n) ∧
        ∀ limit cutoff mode,
          (after (.start .empty 8) steps).store.recent limit cutoff ≠ .error (.unknownMode mode) := by
  intro steps
  have hsteps : ∀ timed ∈ steps, timed.2.KeepsToEntries := by
    intro timed htimed
    simp only [steps, List.mem_cons, List.not_mem_nil, or_false] at htimed
    rcases htimed with rfl | rfl | rfl | rfl
    · exact ⟨_, _, rfl⟩
    · trivial
    · trivial
    · trivial
  exact ⟨hsteps, results_are_finite 8 steps hsteps⟩

end Session

end Abacus
