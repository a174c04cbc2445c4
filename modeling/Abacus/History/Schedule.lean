import Abacus.History.Recorder

/-!
# Schedule — the recorder among callers that do not wait for each other

Any number of callers record entries, the writer goes on whenever its turn comes, and at some
moment the queue is closed.  A schedule is the order in which all this happens.  The callers share
one queue, so it does not matter which of them records.
-/

namespace Abacus.History

/-- What happens at one moment. -/
inductive Event where
  | record (entry : Entry)
  /-- The writer's turn, with the reading of the clock. -/
  | turn (now : Int)
  | close
  deriving DecidableEq

/-- What comes of an event. -/
inductive Effect (ε : Type) where
  | accepted (entry : Entry)
  | refused (entry : Entry)
  | turn (done : Recorder.Turn ε)
  | closed

namespace Event

variable {ε σ : Type}

/-- One event. -/
def step (sink : Sink ε σ) (recorder : Recorder) (store : σ) : Event → Effect ε × Recorder × σ
  | .record entry =>
      (if recorder.accepts then .accepted entry else .refused entry, recorder.offer entry, store)
  | .turn now =>
      let (done, next) := recorder.work sink now store
      (.turn done, next)
  | .close => (.closed, recorder.close, store)

/-- The events of a schedule, one after the other. -/
def run (sink : Sink ε σ) (recorder : Recorder) (store : σ) :
    List Event → List (Effect ε) × Recorder × σ
  | [] => ([], recorder, store)
  | event :: rest =>
      let (effect, next, later) := event.step sink recorder store
      let (effects, last) := run sink next later rest
      (effect :: effects, last)

end Event

end Abacus.History
