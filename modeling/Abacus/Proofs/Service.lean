import Abacus.Proofs.Except
import Abacus.Service

/-!
# Service — what asking the service does to its history

Apart from a cleanup, asking the service only offers entries to the recorder: those of the
calculations that it answers with (`perform_eq_offerAll`).  Of the entries offered the recorder
keeps as many as it has room for (`start_offerAll`), and the next flush inserts a row for each
that was kept, behind the rows that are there (`flush_start`).
-/

namespace Abacus

open History (Archive Draft Recorder Row Store)

/-! ## Offering -/

/-- The calculation that an answer of the service tells of. -/
def calculationOf : Except Failure Outcome → Option Calculation
  | .ok (.calculation found) => some found
  | .ok (.records _) | .ok (.deleted _) | .error _ => none

/-- Only the answer that is the calculation tells of it. -/
theorem eq_of_calculationOf {answer : Except Failure Outcome} {found : Calculation}
    (h : calculationOf answer = some found) : answer = .ok (.calculation found) := by
  cases answer with
  | error failure => exact nomatch h
  | ok outcome =>
      cases outcome with
      | calculation c =>
          obtain rfl := Option.some.inj h
          rfl
      | records found => exact nomatch h
      | deleted count => exact nomatch h

/-- What an answer tells of: the calculation that it shows, which determines the expression, the
formatted result and the mode; or nothing if it shows none. -/
def Told (shows : Calculation → Prop) : Option Calculation → Prop
  | some found => shows found ∧ ∀ c, shows c → c.entry = found.entry
  | none => ∀ c, ¬ shows c

/-- An answer of the service tells of its calculation. -/
theorem told_calculationOf (answer : Except Failure Outcome) :
    Told (fun c => answer = .ok (.calculation c)) (calculationOf answer) := by
  cases hfound : calculationOf answer with
  | some found =>
      refine ⟨eq_of_calculationOf hfound, ?_⟩
      rintro c rfl
      obtain rfl := Option.some.inj hfound
      rfl
  | none =>
      rintro c rfl
      exact nomatch hfound

namespace Service

/-- The service after the calculations were offered to its recorder, one after the other. -/
def offerAll (service : Service) (found : List Calculation) : Service :=
  ⟨service.store, (found.map Calculation.entry).foldl (fun r e => r.offer e) service.recorder⟩

/-- Offering is done in parts. -/
theorem offerAll_append (service : Service) (first second : List Calculation) :
    service.offerAll (first ++ second) = (service.offerAll first).offerAll second := by
  simp [offerAll]

/-- A calculation that succeeds is offered, and nothing else is. -/
theorem calculate_eq_offerAll (request : Request) (service : Service) :
    (service.calculate request).2 =
      service.offerAll (service.calculate request).1.toOption.toList := by
  rw [calculate]
  cases request.calculate with
  | ok found => rfl
  | error failure => rfl

/-- A calculation is answered with what it gives, and offered if it gives something. -/
theorem perform_calculate (now : Int) (request : Request) (service : Service) :
    service.perform now (.calculate request) =
      (request.calculate.map .calculation,
        service.offerAll request.calculate.toOption.toList) := by
  rw [perform, calculate]
  cases request.calculate with
  | ok found => rfl
  | error failure => rfl

/-- Anything but a cleanup offers the calculation that is answered, if there is one. -/
theorem perform_eq_offerAll {command : Command} (h : command ≠ .cleanup) (now : Int)
    (service : Service) :
    (service.perform now command).2 =
      service.offerAll (calculationOf (service.perform now command).1).toList := by
  cases command with
  | calculate request =>
      -- the answer is reworded as an outcome after the offer
      show (service.calculate request).2 = service.offerAll
        (calculationOf ((service.calculate request).1.map .calculation)).toList
      rw [calculate_eq_offerAll]
      cases (service.calculate request).1 with
      | ok found => rfl
      | error failure => rfl
  | history limit =>
      rw [perform]
      cases service.history now limit with
      | ok found => rfl
      | error failure => rfl
  | cleanup => exact absurd rfl h

/-- A look at the history tells of no calculation. -/
theorem calculationOf_history (now : Int) (limit : Nat) (service : Service) :
    calculationOf (service.perform now (.history limit)).1 = none := by
  rw [perform]
  cases service.history now limit with
  | ok found => rfl
  | error failure => rfl

/-- Nor does a cleanup. -/
theorem calculationOf_cleanup (now : Int) (service : Service) :
    calculationOf (service.perform now .cleanup).1 = none := by
  show calculationOf ((service.cleanup now).1.map .deleted) = none
  cases (service.cleanup now).1 with
  | ok count => rfl
  | error failure => rfl

end Service

/-! ## Answers and failures -/

namespace Service

/-- A look at the history fails when the store cannot be read. -/
theorem perform_history_eq_error_iff {now : Int} {limit : Nat} {service : Service}
    {failure : Failure} :
    (service.perform now (.history limit)).1 = .error failure ↔
      ∃ fault, service.store.recent limit (History.cutoff now) = .error fault ∧
        failure = .historyRead fault := by
  show ((service.store.recent limit (History.cutoff now)).mapError .historyRead).map
    Outcome.records = .error failure ↔ _
  rw [map_eq_error_iff, mapError_eq_error_iff]

/-- Otherwise it answers with what the store shows. -/
theorem perform_history_eq_ok_iff {now : Int} {limit : Nat} {service : Service} {outcome : Outcome} :
    (service.perform now (.history limit)).1 = .ok outcome ↔
      ∃ records, service.store.recent limit (History.cutoff now) = .ok records ∧
        outcome = .records records := by
  show ((service.store.recent limit (History.cutoff now)).mapError Failure.historyRead).map
    Outcome.records = .ok outcome ↔ _
  rw [map_eq_ok_iff]
  exact exists_congr fun records => and_congr_left fun _ => mapError_eq_ok_iff

/-- A cleanup fails when the store cannot be cleaned up. -/
theorem perform_cleanup_eq_error_iff {now : Int} {service : Service} {failure : Failure} :
    (service.perform now .cleanup).1 = .error failure ↔
      ∃ fault, service.store.cleanup (History.cutoff now) = .error fault ∧
        failure = .historyCleanup fault := by
  show (service.cleanup now).1.map Outcome.deleted = .error failure ↔ _
  rw [map_eq_error_iff, cleanup]
  cases service.store.cleanup (History.cutoff now) with
  | ok found => simp
  | error fault => simp [eq_comm]

end Service

/-! ## The recorder keeps what it has room for -/

/-- An open recorder keeps the first entries, up to its room, in the order in which they come. -/
theorem History.Recorder.foldl_offer (recorder : Recorder) (entries : List Entry)
    (hopen : recorder.isClosed = false) (hroom : recorder.waiting.length ≤ recorder.room) :
    entries.foldl (fun r e => r.offer e) recorder =
      { recorder with waiting := (recorder.waiting ++ entries).take recorder.room } := by
  induction entries generalizing recorder with
  | nil => rw [List.append_nil, List.take_of_length_le hroom, List.foldl_nil]
  | cons entry rest ih =>
      by_cases hfits : recorder.waiting.length < recorder.room
      · have haccepts : recorder.accepts = true := by simp [Recorder.accepts, hopen, hfits]
        have hnext : recorder.offer entry =
            { recorder with waiting := recorder.waiting ++ [entry] } := if_pos haccepts
        have hlength : (recorder.waiting ++ [entry]).length ≤ recorder.room := by
          rw [List.length_append]
          exact hfits
        have hrest := ih { recorder with waiting := recorder.waiting ++ [entry] } hopen hlength
        rw [List.foldl_cons, hnext, hrest, List.append_assoc]
        rfl
      · -- a full queue stays as it is, and so does its beginning
        have hrefuses : ¬ recorder.accepts = true := by simp [Recorder.accepts, hfits]
        have hsame : recorder.offer entry = recorder := if_neg hrefuses
        have hfull : recorder.waiting.length = recorder.room := by omega
        rw [List.foldl_cons, hsame, ih recorder hopen hroom, ← hfull, List.take_left,
          List.take_left]

namespace Service

/-- A service that has just been started keeps the first calculations, up to its capacity. -/
theorem start_offerAll (store : Store) (capacity : Nat) (found : List Calculation) :
    (start store capacity).offerAll found =
      ⟨store, { Recorder.start capacity with
        waiting := (found.take (max capacity 1)).map Calculation.entry }⟩ := by
  rw [offerAll, Recorder.foldl_offer _ _ rfl (Nat.zero_le _), List.map_take]
  rfl

end Service

/-! ## The flush -/

/-- Writing entries into a working store adds a row for each at the end. -/
theorem History.exists_foldl_attempt (now : Int) (archive : Archive) (entries : List Entry) :
    ∃ next added, entries.foldl (Recorder.attempt Store.sink now) (.working archive) =
        .working next ∧ next.rows = archive.rows ++ added ∧
      added.map Row.toDraft = entries.map fun entry => .ofEntry entry now := by
  induction entries generalizing archive with
  | nil => exact ⟨archive, [], rfl, (List.append_nil _).symm, rfl⟩
  | cons entry rest ih =>
      obtain ⟨next, added, hnext, hrows, hadded⟩ := ih (archive.insert (.ofEntry entry now))
      refine ⟨next, ⟨.ofEntry entry now, archive.lastId + 1⟩ :: added, hnext, ?_, ?_⟩
      · rw [hrows, Archive.rows_insert, List.append_assoc]
        rfl
      · rw [List.map_cons, hadded, List.map_cons]

namespace Service

/-- A flush of an open recorder with an empty hand writes what waits, and starts anew. -/
theorem flush_start (now : Int) (archive : Archive) (capacity : Nat) (waiting : List Entry) :
    ∃ next added, flush now ⟨.working archive, { Recorder.start capacity with waiting }⟩ =
        start (.working next) capacity ∧ next.rows = archive.rows ++ added ∧
      added.map Row.toDraft = waiting.map fun entry => .ofEntry entry now := by
  obtain ⟨next, added, hnext, hadded⟩ := History.exists_foldl_attempt now archive waiting
  refine ⟨next, added, ?_, hadded⟩
  show (⟨waiting.foldl (Recorder.attempt Store.sink now) (.working archive), _⟩ : Service) = _
  rw [hnext]
  rfl

end Service

/-! ## Running services -/

namespace Service

/-- The store works, and the recorder is open with nothing in the writer's hand. -/
def IsRunning (capacity : Nat) (service : Service) : Prop :=
  ∃ archive waiting, service = ⟨.working archive, { Recorder.start capacity with waiting }⟩

variable {capacity : Nat} {service : Service}

theorem isRunning_start (archive : Archive) (capacity : Nat) :
    (start (.working archive) capacity).IsRunning capacity :=
  ⟨archive, [], rfl⟩

theorem IsRunning.offerAll (h : service.IsRunning capacity) (found : List Calculation) :
    (service.offerAll found).IsRunning capacity := by
  induction found generalizing service with
  | nil => exact h
  | cons c rest ih =>
      rw [← List.singleton_append, offerAll_append]
      refine ih ?_
      obtain ⟨archive, waiting, rfl⟩ := h
      show (⟨.working archive, Recorder.offer c.entry _⟩ : Service).IsRunning capacity
      rw [Recorder.offer]
      split
      · exact ⟨archive, waiting ++ [c.entry], rfl⟩
      · exact ⟨archive, waiting, rfl⟩

/-- Whatever it is asked, a service goes on running. -/
theorem IsRunning.perform (h : service.IsRunning capacity) (now : Int) (command : Command) :
    (service.perform now command).2.IsRunning capacity := by
  by_cases hcleanup : command = .cleanup
  · obtain ⟨archive, waiting, rfl⟩ := h
    rw [hcleanup]
    exact ⟨archive.newerThan (History.cutoff now), waiting, rfl⟩
  · rw [perform_eq_offerAll hcleanup]
    exact h.offerAll _

/-- A flush leaves a running service as one that has just been started. -/
theorem IsRunning.flush (h : service.IsRunning capacity) (now : Int) :
    ∃ archive, service.flush now = start (.working archive) capacity := by
  obtain ⟨archive, waiting, rfl⟩ := h
  obtain ⟨next, added, hnext, -⟩ := flush_start now archive capacity waiting
  exact ⟨next, hnext⟩

end Service

end Abacus
