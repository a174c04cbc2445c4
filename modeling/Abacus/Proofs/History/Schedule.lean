import Abacus.History.Schedule

/-!
# Schedule — what every order of recording, writing and closing keeps

Whatever the order, an entry that is accepted is at any moment in one of three places: written, in
the writer's hand, or waiting.  One event moves at most one entry from one place to the next
(`Comes.pending`), so over a whole run what was accepted is what was tried followed by what is
pending (`Runs.pending`), in one order.  When the writer ends nothing is pending, and it does end:
after the queue is closed each turn brings it nearer (`Comes.turnsLeft`).
-/

namespace Abacus.History

variable {ε σ : Type}

/-! ## What a run tells -/

namespace Effect

/-- The entry that is accepted. -/
def accepted? : Effect ε → Option Entry
  | .accepted entry => some entry
  | .refused _ | .turn _ | .closed => none

/-- The write that is made. -/
def attempt? : Effect ε → Option (Recorder.Attempt ε)
  | .turn (.written attempt) => some attempt
  | .turn (.taken _) | .turn .idle | .turn .ended | .accepted _ | .refused _ | .closed => none

end Effect

/-- The entries accepted, in the order of their acceptance. -/
def accepted (effects : List (Effect ε)) : List Entry :=
  effects.filterMap Effect.accepted?

/-- The writes made, in order. -/
def attempts (effects : List (Effect ε)) : List (Recorder.Attempt ε) :=
  effects.filterMap Effect.attempt?

/-- The row that a write is to insert. -/
def Recorder.Attempt.draft (attempt : Recorder.Attempt ε) : Draft :=
  .ofEntry attempt.entry attempt.now

/-- The rows whose writes succeeded. -/
def stored (attempts : List (Recorder.Attempt ε)) : List Draft :=
  (attempts.filter fun attempt => attempt.outcome.isOk).map Recorder.Attempt.draft

/-- Writes of the rows one after the other: what each answers, and the store after them. -/
def Sink.writeAll (sink : Sink ε σ) (store : σ) : List Draft → List (Except ε Unit) × σ
  | [] => ([], store)
  | draft :: rest =>
      let (outcome, next) := sink draft store
      let (outcomes, last) := writeAll sink next rest
      (outcome :: outcomes, last)

/-- A write that succeeds adds its row at the end, and one that fails changes no row. -/
def Sink.Appends (sink : Sink ε σ) (rows : σ → List Draft) : Prop :=
  ∀ draft store, rows (sink draft store).2 =
    if (sink draft store).1.isOk then rows store ++ [draft] else rows store

/-- The event is a turn of the writer. -/
def Event.isTurn : Event → Bool
  | .turn _ => true
  | .record _ | .close => false

namespace Recorder

/-- How many turns the writer needs before nothing is pending: two for an entry that waits. -/
def turnsLeft (recorder : Recorder) : Nat :=
  2 * recorder.waiting.length + recorder.inHand.toList.length

/-- Nothing is pending, and nothing will be. -/
def IsFinished (recorder : Recorder) : Prop :=
  recorder.isClosed = true ∧ recorder.pending = []

end Recorder

/-! ## One event -/

/-- What an event can come to: every effect, with when it happens and what it leaves. -/
inductive Comes (sink : Sink ε σ) (recorder : Recorder) (store : σ) :
    Event → Effect ε → Recorder → σ → Prop where
  | accepted (entry : Entry) (hopen : recorder.isClosed = false)
      (hroom : recorder.waiting.length < recorder.room) :
      Comes sink recorder store (.record entry) (.accepted entry)
        { recorder with waiting := recorder.waiting ++ [entry] } store
  | refused (entry : Entry)
      (h : ¬ (recorder.isClosed = false ∧ recorder.waiting.length < recorder.room)) :
      Comes sink recorder store (.record entry) (.refused entry) recorder store
  | written (entry : Entry) (now : Int) (hhand : recorder.inHand = some entry) :
      Comes sink recorder store (.turn now)
        (.turn (.written ⟨entry, now, (sink (.ofEntry entry now) store).1⟩))
        { recorder with inHand := none } (sink (.ofEntry entry now) store).2
  | taken (entry : Entry) (rest : List Entry) (now : Int) (hhand : recorder.inHand = none)
      (hwaiting : recorder.waiting = entry :: rest) :
      Comes sink recorder store (.turn now) (.turn (.taken entry))
        { recorder with waiting := rest, inHand := some entry } store
  | idle (now : Int) (hopen : recorder.isClosed = false) (hpending : recorder.pending = []) :
      Comes sink recorder store (.turn now) (.turn .idle) recorder store
  | ended (now : Int) (hfinished : recorder.IsFinished) :
      Comes sink recorder store (.turn now) (.turn .ended) recorder store
  | closed : Comes sink recorder store .close .closed recorder.close store

/-- Every event comes to one of these. -/
theorem comes_step (sink : Sink ε σ) (recorder : Recorder) (store : σ) (event : Event) :
    Comes sink recorder store event (event.step sink recorder store).1
      (event.step sink recorder store).2.1 (event.step sink recorder store).2.2 := by
  cases event with
  | record entry =>
      by_cases haccepts : recorder.isClosed = false ∧ recorder.waiting.length < recorder.room
      · have h : recorder.accepts = true := by simp [Recorder.accepts, haccepts]
        simp only [Event.step, Recorder.offer, if_pos h]
        exact .accepted entry haccepts.1 haccepts.2
      · have h : ¬ recorder.accepts = true := by simpa [Recorder.accepts] using haccepts
        simp only [Event.step, Recorder.offer, if_neg h]
        exact .refused entry haccepts
  | turn now =>
      obtain ⟨capacity, waiting, inHand, isClosed⟩ := recorder
      cases inHand with
      | some entry => exact .written entry now rfl
      | none =>
          cases waiting with
          | cons entry rest => exact .taken entry rest now rfl rfl
          | nil =>
              cases isClosed with
              | false => exact .idle now rfl rfl
              | true => exact .ended now ⟨rfl, rfl⟩
  | close => exact .closed

section Comes

variable {sink : Sink ε σ} {recorder next : Recorder} {store later : σ} {event : Event}
  {effect : Effect ε}

/-- An event moves an entry from acceptance to the queue, to the hand or to the store, and does
not pass by another. -/
theorem Comes.pending (h : Comes sink recorder store event effect next later) :
    recorder.pending ++ effect.accepted?.toList =
      effect.attempt?.toList.map Recorder.Attempt.entry ++ next.pending := by
  -- an entry enters at the end of the queue and leaves at the front of what is pending
  cases h with
  | accepted entry => exact List.append_assoc _ _ _
  | refused entry => exact List.append_nil _
  | written entry now hhand => simp [Recorder.pending, hhand, Effect.accepted?, Effect.attempt?]
  | taken entry rest now hhand hwaiting =>
      simp [Recorder.pending, hhand, hwaiting, Effect.accepted?, Effect.attempt?]
  | idle now => exact List.append_nil _
  | ended now => exact List.append_nil _
  | closed => exact List.append_nil _

theorem Comes.capacity_eq (h : Comes sink recorder store event effect next later) :
    next.capacity = recorder.capacity := by
  cases h <;> rfl

/-- Only closing closes. -/
theorem Comes.isClosed_eq (h : Comes sink recorder store event effect next later) :
    next.isClosed = true ↔ recorder.isClosed = true ∨ .close = event := by
  cases h <;> simp [Recorder.close]

/-- The queue does not outgrow its room. -/
theorem Comes.length_waiting_le (h : Comes sink recorder store event effect next later)
    (hroom : recorder.waiting.length ≤ recorder.room) : next.waiting.length ≤ next.room := by
  cases h with
  | accepted entry hopen hfits => simpa [Recorder.room] using Nat.succ_le_of_lt hfits
  | refused entry => exact hroom
  | written entry now => exact hroom
  | taken entry rest now hhand hwaiting =>
      rw [hwaiting] at hroom
      exact Nat.le_of_succ_le hroom
  | idle now => exact hroom
  | ended now => exact hroom
  | closed => exact hroom

/-- The store changes by the write that is made, and by nothing else. -/
theorem Comes.writeAll (h : Comes sink recorder store event effect next later) :
    sink.writeAll store (effect.attempt?.toList.map Recorder.Attempt.draft) =
      (effect.attempt?.toList.map Recorder.Attempt.outcome, later) := by
  cases h <;> rfl

/-- A closed queue accepts nothing. -/
theorem Comes.accepted?_eq (h : Comes sink recorder store event effect next later)
    (hclosed : recorder.isClosed = true) : effect.accepted? = none := by
  cases h with
  | accepted entry hopen =>
      rw [hopen] at hclosed
      exact nomatch hclosed
  | refused entry => rfl
  | written entry now => rfl
  | taken entry rest now => rfl
  | idle now => rfl
  | ended now => rfl
  | closed => rfl

/-- A write is made at the reading of the clock in its turn. -/
theorem Comes.now_eq (h : Comes sink recorder store event effect next later) {now : Int}
    (hnow : event.isTurn = true → event = .turn now) :
    ∀ attempt ∈ effect.attempt?.toList, attempt.now = now := by
  cases h with
  | written entry now' =>
      obtain rfl := Event.turn.inj (hnow rfl)
      intro attempt hmem
      obtain rfl := List.mem_singleton.mp hmem
      rfl
  | accepted entry => exact fun attempt hmem => nomatch hmem
  | refused entry => exact fun attempt hmem => nomatch hmem
  | taken entry rest now' => exact fun attempt hmem => nomatch hmem
  | idle now' => exact fun attempt hmem => nomatch hmem
  | ended now' => exact fun attempt hmem => nomatch hmem
  | closed => exact fun attempt hmem => nomatch hmem

/-- Of a store that adds rows at the end, a write that succeeds adds its row. -/
theorem Comes.rows_eq (h : Comes sink recorder store event effect next later)
    {rows : σ → List Draft} (happends : sink.Appends rows) :
    rows later = rows store ++ stored effect.attempt?.toList := by
  cases h with
  | written entry now =>
      rw [happends]
      cases hok : (sink (.ofEntry entry now) store).1.isOk <;>
        simp [stored, Effect.attempt?, Recorder.Attempt.draft, hok]
  | accepted entry => exact (List.append_nil _).symm
  | refused entry => exact (List.append_nil _).symm
  | taken entry rest now => exact (List.append_nil _).symm
  | idle now => exact (List.append_nil _).symm
  | ended now => exact (List.append_nil _).symm
  | closed => exact (List.append_nil _).symm

/-- A finished recorder stays so, and the writer ends only when the recorder is finished. -/
theorem Comes.isFinished (h : Comes sink recorder store event effect next later)
    (hend : recorder.IsFinished ∨ effect = .turn .ended) : next.IsFinished := by
  -- a finished recorder is closed and has nothing to write or to take
  cases h with
  | accepted entry hopen hfits =>
      rcases hend with ⟨hclosed, -⟩ | heffect
      · rw [hopen] at hclosed
        exact nomatch hclosed
      · exact nomatch heffect
  | refused entry => exact hend.resolve_right (fun heffect => nomatch heffect)
  | written entry now hhand =>
      rcases hend with ⟨-, hpending⟩ | heffect
      · rw [Recorder.pending, hhand] at hpending
        exact nomatch hpending
      · exact nomatch heffect
  | taken entry rest now hhand hwaiting =>
      rcases hend with ⟨-, hpending⟩ | heffect
      · rw [Recorder.pending, hhand, hwaiting] at hpending
        exact nomatch hpending
      · exact nomatch heffect
  | idle now => exact hend.resolve_right (fun heffect => nomatch heffect)
  | ended now hfinished => exact hfinished
  | closed =>
      rcases hend with ⟨-, hpending⟩ | heffect
      · exact ⟨rfl, hpending⟩
      · exact nomatch heffect

/-- Once the queue is closed, a turn ends the writer or leaves one turn fewer. -/
theorem Comes.turnsLeft (h : Comes sink recorder store event effect next later)
    (hclosed : recorder.isClosed = true) :
    effect = .turn .ended ∨
      next.turnsLeft + (if event.isTurn then 1 else 0) = recorder.turnsLeft := by
  cases h with
  | accepted entry hopen =>
      rw [hopen] at hclosed
      exact nomatch hclosed
  | refused entry => exact Or.inr rfl
  | written entry now hhand =>
      refine Or.inr ?_
      simp [Recorder.turnsLeft, Event.isTurn, hhand]
  | taken entry rest now hhand hwaiting =>
      -- the entry costs one turn less now that it need only be written
      refine Or.inr ?_
      simp only [Recorder.turnsLeft, hhand, hwaiting, Event.isTurn, Option.toList, List.length_cons,
        List.length_nil, if_true]
      omega
  | idle now hopen =>
      rw [hopen] at hclosed
      exact nomatch hclosed
  | ended now => exact Or.inl rfl
  | closed => exact Or.inr rfl

end Comes

/-! ## Whole schedules -/

/-- A schedule, event by event. -/
inductive Runs (sink : Sink ε σ) :
    Recorder → σ → List Event → List (Effect ε) → Recorder → σ → Prop where
  | nil (recorder : Recorder) (store : σ) : Runs sink recorder store [] [] recorder store
  | cons {recorder next last : Recorder} {store later after : σ} {event : Event}
      {effect : Effect ε} {events : List Event} {effects : List (Effect ε)}
      (first : Comes sink recorder store event effect next later)
      (rest : Runs sink next later events effects last after) :
      Runs sink recorder store (event :: events) (effect :: effects) last after

/-- Every run is one. -/
theorem runs_run (sink : Sink ε σ) (recorder : Recorder) (store : σ) (events : List Event) :
    Runs sink recorder store events (Event.run sink recorder store events).1
      (Event.run sink recorder store events).2.1 (Event.run sink recorder store events).2.2 := by
  induction events generalizing recorder store with
  | nil => exact .nil recorder store
  | cons event rest ih => exact .cons (comes_step sink recorder store event) (ih _ _)

theorem accepted_cons (effect : Effect ε) (effects : List (Effect ε)) :
    accepted (effect :: effects) = effect.accepted?.toList ++ accepted effects := by
  cases h : effect.accepted? <;> simp [accepted, h]

theorem attempts_cons (effect : Effect ε) (effects : List (Effect ε)) :
    attempts (effect :: effects) = effect.attempt?.toList ++ attempts effects := by
  cases h : effect.attempt? <;> simp [attempts, h]

/-- Writes one after the other are the first ones, and then the others. -/
theorem Sink.writeAll_append (sink : Sink ε σ) (store : σ) (first second : List Draft) :
    sink.writeAll store (first ++ second) =
      ((sink.writeAll store first).1 ++ (sink.writeAll (sink.writeAll store first).2 second).1,
        (sink.writeAll (sink.writeAll store first).2 second).2) := by
  induction first generalizing store with
  | nil => rfl
  | cons draft rest ih =>
      have hrest := ih (sink draft store).2
      simp only [List.cons_append, writeAll, hrest]

section Runs

variable {sink : Sink ε σ} {recorder last : Recorder} {store after : σ} {events : List Event}
  {effects : List (Effect ε)}

/-- What was pending and then accepted is what was tried, followed by what is pending. -/
theorem Runs.pending (h : Runs sink recorder store events effects last after) :
    recorder.pending ++ accepted effects =
      (attempts effects).map Recorder.Attempt.entry ++ last.pending := by
  induction h with
  | nil recorder store => exact List.append_nil _
  | cons first _ ih =>
      -- the first event settles what is pending before it, and the rest what is pending after it
      rw [accepted_cons, attempts_cons, ← List.append_assoc, first.pending, List.append_assoc, ih,
        List.map_append, List.append_assoc]

theorem Runs.capacity_eq (h : Runs sink recorder store events effects last after) :
    last.capacity = recorder.capacity := by
  induction h with
  | nil recorder store => rfl
  | cons first _ ih => exact ih.trans first.capacity_eq

theorem Runs.isClosed_iff (h : Runs sink recorder store events effects last after) :
    last.isClosed = true ↔ recorder.isClosed = true ∨ .close ∈ events := by
  induction h with
  | nil recorder store => simp
  | cons first _ ih => rw [ih, first.isClosed_eq, List.mem_cons, or_assoc]

theorem Runs.length_waiting_le (h : Runs sink recorder store events effects last after)
    (hroom : recorder.waiting.length ≤ recorder.room) : last.waiting.length ≤ last.room := by
  induction h with
  | nil recorder store => exact hroom
  | cons first _ ih => exact ih (first.length_waiting_le hroom)

/-- The store is as if the rows had been written one after the other. -/
theorem Runs.writeAll (h : Runs sink recorder store events effects last after) :
    sink.writeAll store ((attempts effects).map Recorder.Attempt.draft) =
      ((attempts effects).map Recorder.Attempt.outcome, after) := by
  induction h with
  | nil recorder store => rfl
  | cons first _ ih =>
      rw [attempts_cons, List.map_append, List.map_append, Sink.writeAll_append, first.writeAll, ih]

/-- When the writer has ended, the recorder is finished. -/
theorem Runs.isFinished (h : Runs sink recorder store events effects last after)
    (hend : recorder.IsFinished ∨ .turn .ended ∈ effects) : last.IsFinished := by
  induction h with
  | nil recorder store => exact hend.resolve_right List.not_mem_nil
  | cons first _ ih =>
      rcases hend with hfinished | hmem
      · exact ih (Or.inl (first.isFinished (Or.inl hfinished)))
      · rcases List.mem_cons.mp hmem with heffect | hmem
        · exact ih (Or.inl (first.isFinished (Or.inr heffect.symm)))
        · exact ih (Or.inr hmem)

/-- After closing, enough turns end the writer, whatever else happens between them. -/
theorem Runs.ended_mem (h : Runs sink recorder store events effects last after)
    (hclosed : recorder.isClosed = true)
    (hturns : recorder.turnsLeft < (events.filter Event.isTurn).length) :
    .turn .ended ∈ effects := by
  induction h with
  | nil recorder store => exact absurd hturns (Nat.not_lt_zero _)
  | @cons recorder next last store later after event effect events effects first _ ih =>
      rcases first.turnsLeft hclosed with heffect | hleft
      · rw [heffect]
        exact List.mem_cons_self ..
      · refine List.mem_cons_of_mem _ (ih (first.isClosed_eq.mpr (Or.inl hclosed)) ?_)
        cases hturn : event.isTurn <;> simp [hturn] at hleft hturns <;> omega

/-- Of a store that adds rows at the end, the rows are those whose writes succeeded. -/
theorem Runs.rows_eq (h : Runs sink recorder store events effects last after)
    {rows : σ → List Draft} (happends : sink.Appends rows) :
    rows after = rows store ++ stored (attempts effects) := by
  induction h with
  | nil recorder store => exact (List.append_nil _).symm
  | cons first _ ih =>
      rw [ih, first.rows_eq happends, attempts_cons, stored, stored, stored, List.filter_append,
        List.map_append, List.append_assoc]

/-- After closing, nothing is accepted. -/
theorem Runs.accepted_eq_nil (h : Runs sink recorder store events effects last after)
    (hclosed : recorder.isClosed = true) : accepted effects = [] := by
  induction h with
  | nil recorder store => rfl
  | cons first _ ih =>
      rw [accepted_cons, first.accepted?_eq hclosed,
        ih (first.isClosed_eq.mpr (Or.inl hclosed))]
      rfl

/-- With a clock that stands still, all writes are made at one moment. -/
theorem Runs.now_eq (h : Runs sink recorder store events effects last after) {now : Int}
    (hnow : ∀ event ∈ events, event.isTurn = true → event = .turn now) :
    ∀ attempt ∈ attempts effects, attempt.now = now := by
  induction h with
  | nil recorder store => exact fun attempt hmem => nomatch hmem
  | cons first _ ih =>
      intro attempt hmem
      rw [attempts_cons] at hmem
      rcases List.mem_append.mp hmem with hmem | hmem
      · exact first.now_eq (hnow _ (List.mem_cons_self ..)) attempt hmem
      · exact ih (fun event hevent => hnow event (List.mem_cons_of_mem _ hevent)) attempt hmem

end Runs

/-- Writing entries and passing over failures leaves the store that the writes leave. -/
theorem foldl_attempt (sink : Sink ε σ) (now : Int) (store : σ) (entries : List Entry) :
    entries.foldl (Recorder.attempt sink now) store =
      (sink.writeAll store (entries.map fun entry => .ofEntry entry now)).2 := by
  induction entries generalizing store with
  | nil => rfl
  | cons entry rest ih => exact ih _

/-- **Shutting down in one go is what every schedule comes to**: once the queue is closed and the
writer has ended, the recorder and the store are as if all that was pending had been written at
once, whoever has tried to record meanwhile. -/
theorem run_close_eq_shutdown (sink : Sink ε σ) (recorder : Recorder) (store : σ) (now : Int)
    (events : List Event) (hnow : ∀ event ∈ events, event.isTurn = true → event = .turn now)
    (hturns : recorder.turnsLeft < (events.filter Event.isTurn).length) :
    (Event.run sink recorder.close store events).2 = recorder.shutdown sink now store := by
  have h := runs_run sink recorder.close store events
  generalize (Event.run sink recorder.close store events).1 = effects at h
  generalize (Event.run sink recorder.close store events).2 = done at h ⊢
  obtain ⟨last, after⟩ := done
  obtain ⟨hclosed, hpending⟩ := h.isFinished (Or.inr (h.ended_mem rfl hturns))
  -- with nothing accepted and nothing left over, what was tried is what was pending
  have hentries := h.pending
  rw [h.accepted_eq_nil rfl, hpending, List.append_nil, List.append_nil] at hentries
  have hdrafts : (attempts effects).map Recorder.Attempt.draft =
      recorder.pending.map fun entry => .ofEntry entry now := by
    rw [show recorder.pending = _ from hentries, List.map_map]
    refine List.map_congr_left fun attempt hmem => ?_
    rw [Recorder.Attempt.draft, h.now_eq hnow attempt hmem]
    rfl
  have hstore : after = recorder.pending.foldl (Recorder.attempt sink now) store := by
    rw [foldl_attempt, ← hdrafts, h.writeAll]
  have hlast : last = { recorder.close with waiting := [], inHand := none } := by
    have hcapacity := h.capacity_eq
    obtain ⟨hhand, hwaiting⟩ := List.append_eq_nil_iff.mp hpending
    obtain ⟨capacity, waiting, inHand, isClosed⟩ := last
    obtain rfl : capacity = recorder.capacity := hcapacity
    obtain rfl : waiting = [] := hwaiting
    obtain rfl : inHand = none := Option.toList_eq_nil_iff.mp hhand
    obtain rfl : isClosed = true := hclosed
    rfl
  rw [hlast, hstore]
  rfl

/-- **Every entry accepted is tried once, in order, and no other is.**  At any moment of any
schedule the queue has not outgrown its room, and it accepts an entry exactly when it is open and
has room; what was accepted is what was tried, followed by what is pending.  When the writer has
ended nothing is pending, and after closing enough turns end it.  The store is as if the rows had
been written one after the other, so a write that fails costs its own row and no other. -/
theorem run_tries_accepted (sink : Sink ε σ) (capacity : Nat) (store : σ) (events : List Event)
    (effects : List (Effect ε)) (recorder : Recorder) (after : σ)
    (h : Event.run sink (.start capacity) store events = (effects, recorder, after)) :
    recorder.waiting.length ≤ max capacity 1 ∧
      (∀ entry, (Event.record entry).step sink recorder after =
        if .close ∉ events ∧ recorder.waiting.length < max capacity 1 then
          (.accepted entry, { recorder with waiting := recorder.waiting ++ [entry] }, after)
        else (.refused entry, recorder, after)) ∧
      accepted effects = (attempts effects).map Recorder.Attempt.entry ++ recorder.pending ∧
      (.turn .ended ∈ effects →
        (attempts effects).map Recorder.Attempt.entry = accepted effects) ∧
      (.close ∈ events → ∀ later, recorder.turnsLeft < (later.filter Event.isTurn).length →
        .turn .ended ∈ (Event.run sink recorder after later).1) ∧
      sink.writeAll store ((attempts effects).map Recorder.Attempt.draft) =
        ((attempts effects).map Recorder.Attempt.outcome, after) ∧
      ∀ rows : σ → List Draft, sink.Appends rows →
        rows after = rows store ++ stored (attempts effects) := by
  have hrun := runs_run sink (.start capacity) store events
  rw [h] at hrun
  dsimp only at hrun
  have hroom : recorder.room = max capacity 1 := by
    rw [Recorder.room, hrun.capacity_eq]
    rfl
  have hclosed : recorder.isClosed = true ↔ .close ∈ events := by
    rw [hrun.isClosed_iff]
    exact or_iff_right Bool.false_ne_true
  have haccepts : recorder.accepts = true ↔
      .close ∉ events ∧ recorder.waiting.length < max capacity 1 := by
    rw [← hclosed, ← hroom]
    simp [Recorder.accepts]
  have hpending : accepted effects = _ := hrun.pending
  refine ⟨?_, ?_, hpending, ?_, ?_, hrun.writeAll, fun rows => hrun.rows_eq⟩
  · rw [← hroom]
    exact hrun.length_waiting_le (Nat.zero_le _)
  · intro entry
    by_cases hfits : .close ∉ events ∧ recorder.waiting.length < max capacity 1
    · have haccepted := haccepts.mpr hfits
      rw [if_pos hfits, Event.step, Recorder.offer, if_pos haccepted, if_pos haccepted]
    · have hrefused := mt haccepts.mp hfits
      rw [if_neg hfits, Event.step, Recorder.offer, if_neg hrefused, if_neg hrefused]
  · intro hended
    rw [hpending, (hrun.isFinished (Or.inr hended)).2, List.append_nil]
  · intro hclose later hturns
    exact (runs_run sink recorder after later).ended_mem (hclosed.mpr hclose) hturns

/-- A queue without room holds one entry all the same; the second is refused, and so is one after
closing.  The store takes no row at the time 0, and the next row is written. -/
theorem run_tries_accepted_failing_write :
    let sink : Sink Unit (List Draft) := fun draft rows =>
      if draft.createdAt = 0 then (.error (), rows) else (.ok (), rows ++ [draft])
    let done := Event.run sink (.start 0) [] [.record ⟨"1+1", "2", .standard⟩,
      .record ⟨"1+2", "3", .standard⟩, .turn 0, .record ⟨"1+3", "4", .standard⟩, .turn 0, .close,
      .record ⟨"1+4", "5", .standard⟩, .turn 1, .turn 1, .turn 1]
    sink.Appends id ∧
      accepted done.1 = [⟨"1+1", "2", .standard⟩, ⟨"1+3", "4", .standard⟩] ∧
      (attempts done.1).map Recorder.Attempt.entry = accepted done.1 ∧
      done.2.2 = [⟨"1+3", "4", "standard", 1⟩] := by
  intro sink done
  have happends : sink.Appends id := by
    intro draft rows
    show (ite _ _ _ : Except Unit Unit × List Draft).2 =
      if (ite _ _ _ : Except Unit Unit × List Draft).1.isOk then _ else _
    by_cases hzero : draft.createdAt = 0
    · rw [if_pos hzero]
      rfl
    · rw [if_neg hzero]
      rfl
  obtain ⟨-, -, -, hall, -, -, hrows⟩ := run_tries_accepted sink 0 [] _ done.1 done.2.1 done.2.2 rfl
  refine ⟨happends, rfl, hall ?_, (hrows id happends).trans rfl⟩
  exact List.mem_of_getLast? rfl

end Abacus.History
