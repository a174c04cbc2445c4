import Abacus.Calculation
import Abacus.Expression.Evaluation
import Abacus.Function
import Abacus.History.Recorder
import Abacus.History.Retention

/-!
# Service — calculations with a history

The service calculates, offers each successful calculation to the recorder, shows the history and
cleans it up.  What a calculation answers does not look at the store or at the recorder.
-/

namespace Abacus

/-- Why the service has no answer. -/
inductive Failure where
  /-- The request is refused before anything is calculated. -/
  | invalid (refusal : Refusal)
  | calculation (refusal : Refusal)
  | scientific (refusal : Refusal)
  | historyRead (fault : History.Store.Fault)
  | historyCleanup (fault : History.Store.Fault)
  deriving DecidableEq

namespace Failure

/-- The wording of a failure. -/
def message : Failure → String
  | .invalid refusal => refusal.message
  | .calculation refusal => "Calculation failed: " ++ refusal.message
  | .scientific refusal => "Scientific calculation failed: " ++ refusal.message
  | .historyRead fault => "Failed to retrieve history: " ++ fault.message
  | .historyCleanup fault => "Failed to cleanup history: " ++ fault.message

/-- The one who asked is at fault. -/
def isClientError : Failure → Bool
  | .invalid _ | .calculation _ | .scientific _ => true
  | .historyRead _ | .historyCleanup _ => false

end Failure

/-- The calculation that a request asks for. -/
def Request.calculate : Request → Except Failure Calculation
  | .expression text mode => do
      (Verdict.ofText text).toResult.mapError .invalid
      let result ← (computeExpression text).mapError .calculation
      return .ofResult text result mode
  | .scientific value operation second => do
      if !value.isFinite then
        throw (.invalid (.validation "Invalid value: must be a number"))
      if (Function.ofName? operation).isNone then
        throw (.invalid (.unsupportedOperation operation))
      let result ← (computeFunction value operation second).mapError .scientific
      return .ofResult (Calculation.label operation value second) result .scientific

/-- What the service is asked to do. -/
inductive Command where
  | calculate (request : Request)
  /-- Show at most so many records. -/
  | history (limit : Nat)
  | cleanup
  deriving DecidableEq

/-- What the service answers. -/
inductive Outcome where
  | calculation (found : Calculation)
  | records (found : List History.Record)
  | deleted (count : Nat)
  deriving DecidableEq

/-- A running service: the store, and the recorder in front of it. -/
structure Service where
  store : History.Store
  recorder : History.Recorder

namespace Service

/-- Start the service over a store. -/
def start (store : History.Store) (capacity : Nat) : Service :=
  ⟨store, .start capacity⟩

/-- How many entries may wait unless something else is asked for. -/
def defaultCapacity : Nat := 256

/-- Calculate, and offer the entry of a successful calculation to the recorder. -/
def calculate (request : Request) (service : Service) :
    Except Failure Calculation × Service :=
  match request.calculate with
  | .ok found =>
      (.ok found, { service with recorder := service.recorder.offer found.entry })
  | .error failure => (.error failure, service)

/-- The history that is shown at the given time. -/
def history (now : Int) (limit : Nat) (service : Service) : Except Failure (List History.Record) :=
  (service.store.recent limit (History.cutoff now)).mapError .historyRead

/-- Delete what is no longer shown at the given time. -/
def cleanup (now : Int) (service : Service) : Except Failure Nat × Service :=
  match service.store.cleanup (History.cutoff now) with
  | .ok (count, store) => (.ok count, { service with store := store })
  | .error fault => (.error (.historyCleanup fault), service)

/-- Do what is asked for. -/
def perform (now : Int) (command : Command) (service : Service) :
    Except Failure Outcome × Service :=
  match command with
  | .calculate request =>
      let (answer, next) := service.calculate request
      (answer.map .calculation, next)
  | .history limit => ((service.history now limit).map .records, service)
  | .cleanup =>
      let (answer, next) := service.cleanup now
      (answer.map .deleted, next)

/-- Stop recording for good, after writing what is pending. -/
def close (now : Int) (service : Service) : Service :=
  let (recorder, store) := service.recorder.shutdown History.Store.sink now service.store
  ⟨store, recorder⟩

/-- Write what is pending and go on recording. -/
def flush (now : Int) (service : Service) : Service :=
  if service.recorder.isClosed then service
  else { service.close now with recorder := .start service.recorder.capacity }

/-- What a calculation answers does not depend on the service. -/
theorem fst_calculate (request : Request) (service : Service) :
    (service.calculate request).1 = request.calculate := by
  unfold calculate
  split <;> simp_all

end Service

end Abacus
