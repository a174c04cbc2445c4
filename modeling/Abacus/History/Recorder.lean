import Abacus.History.Store

/-!
# Recorder — the queue in front of the store

A calculation offers its entry to a queue and does not wait.  A single writer takes the entries
from the queue, one after the other, and writes each into the store.  An entry is accepted when
the queue is open and has room; one that is refused, or that the store does not take, is lost and
nothing else happens.  The writer knows of a store only that a write succeeds or fails.
-/

namespace Abacus.History

/-- A store as the writer knows it: a write succeeds or fails, and leaves some state behind. -/
abbrev Sink (ε σ : Type) := Draft → σ → Except ε Unit × σ

/-- The history as a sink; a store that does not take a row stays as it is. -/
def Store.sink : Sink Store.Fault Store := fun draft store =>
  match store.insert draft with
  | .ok next => (.ok (), next)
  | .error fault => (.error fault, store)

/-- The queue and the writer behind it. -/
structure Recorder where
  /-- How many entries may wait; a capacity of zero counts as one. -/
  capacity : Nat
  waiting : List Entry
  /-- The entry that the writer has taken and not yet written. -/
  inHand : Option Entry
  isClosed : Bool
  deriving DecidableEq

namespace Recorder

/-- An open queue without entries. -/
def start (capacity : Nat) : Recorder :=
  ⟨capacity, [], none, false⟩

/-- How many entries may wait. -/
def room (recorder : Recorder) : Nat :=
  max recorder.capacity 1

/-- An entry that is offered now is accepted. -/
def accepts (recorder : Recorder) : Bool :=
  !recorder.isClosed && recorder.waiting.length < recorder.room

/-- Offer an entry. -/
def offer (entry : Entry) (recorder : Recorder) : Recorder :=
  if recorder.accepts then { recorder with waiting := recorder.waiting ++ [entry] } else recorder

/-- Accept no more entries. -/
def close (recorder : Recorder) : Recorder :=
  { recorder with isClosed := true }

/-- The entries that are accepted and not yet written, in the order of their acceptance. -/
def pending (recorder : Recorder) : List Entry :=
  recorder.inHand.toList ++ recorder.waiting

/-- A write that the writer has made. -/
structure Attempt (ε : Type) where
  entry : Entry
  now : Int
  outcome : Except ε Unit

/-- What the writer does when its turn comes. -/
inductive Turn (ε : Type) where
  | written (attempt : Attempt ε)
  | taken (entry : Entry)
  /-- Nothing waits, and the queue is open. -/
  | idle
  /-- Nothing waits, and nothing will: the writer ends. -/
  | ended

variable {ε σ : Type}

/-- Write an entry and pass over a failure. -/
def attempt (sink : Sink ε σ) (now : Int) (store : σ) (entry : Entry) : σ :=
  (sink (Draft.ofEntry entry now) store).2

/-- The writer writes the entry in its hand, or else takes the next one. -/
def work (sink : Sink ε σ) (now : Int) (recorder : Recorder) (store : σ) :
    Turn ε × Recorder × σ :=
  match recorder.inHand, recorder.waiting with
  | some entry, _ =>
      (.written ⟨entry, now, (sink (Draft.ofEntry entry now) store).1⟩,
        { recorder with inHand := none }, attempt sink now store entry)
  | none, entry :: rest =>
      (.taken entry, { recorder with waiting := rest, inHand := some entry }, store)
  | none, [] => (if recorder.isClosed then .ended else .idle, recorder, store)

/-- Close the queue and write all that is pending. -/
def shutdown (sink : Sink ε σ) (now : Int) (recorder : Recorder) (store : σ) : Recorder × σ :=
  ({ recorder.close with waiting := [], inHand := none },
    recorder.pending.foldl (attempt sink now) store)

end Recorder

end Abacus.History
