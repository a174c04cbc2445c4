import Abacus.CommandLine.Process
import Abacus.Proofs.Service

/-!
# Program — most actions ask the service once

A calculation, a look at the history and a cleanup are each one command to a service that is started
for the run and closed after it.  What then becomes of the rows is the effect of the command
(`Service.store_close_perform`), and the run fails just if the service has no answer
(`code_run_iff`).
-/

namespace Abacus

open History (Archive Recorder Store cutoff)

/-! ## One command to a service -/

/-- What a command that is done by itself makes of the rows. -/
def Command.effect (now : Int) (archive : Archive) : Command → Archive
  | .calculate request =>
      match request.calculate with
      | .ok found => archive.insert (.ofEntry found.entry now)
      | .error _ => archive
  | .history _ => archive
  | .cleanup => archive.newerThan (cutoff now)

namespace Service

theorem store_close_start (now : Int) (store : Store) (capacity : Nat) :
    ((start store capacity).close now).store = store := rfl

/-- An entry that is offered to a service that has just been started is written when it closes. -/
theorem store_close_offer (now : Int) (store : Store) (capacity : Nat) (entry : Entry) :
    (close now ⟨store, (Recorder.start capacity).offer entry⟩).store =
      (Store.sink (.ofEntry entry now) store).2 := by
  have hroom : 0 < max capacity 1 := by omega
  have haccepts : (Recorder.start capacity).accepts = true := decide_eq_true hroom
  rw [Recorder.offer, if_pos haccepts]
  rfl

/-- **A service that does one command and is closed** leaves what the command makes of the rows. -/
theorem store_close_perform (now : Int) (command : Command) (archive : Archive) (capacity : Nat) :
    (((start (.working archive) capacity).perform now command).2.close now).store =
      .working (command.effect now archive) := by
  cases command with
  | calculate request =>
      rw [Command.effect]
      cases hfound : request.calculate with
      | ok found =>
          have hnext : ((start (.working archive) capacity).perform now (.calculate request)).2 =
              ⟨.working archive, (Recorder.start capacity).offer found.entry⟩ := by
            show ((start (.working archive) capacity).calculate request).2 = _
            rw [calculate, hfound]
            rfl
          rw [hnext, store_close_offer]
          rfl
      | error failure =>
          have hnext : ((start (.working archive) capacity).perform now (.calculate request)).2 =
              start (.working archive) capacity := by
            show ((start (.working archive) capacity).calculate request).2 = _
            rw [calculate, hfound]
          rw [hnext, store_close_start]
  | history limit => rfl
  | cleanup => rfl

/-- A store that cannot be used stays what it is. -/
theorem store_close_perform_unavailable (now : Int) (command : Command) (reason : String)
    (capacity : Nat) :
    (((start (.unavailable reason) capacity).perform now command).2.close now).store =
      .unavailable reason := by
  cases command with
  | calculate request =>
      show (((start (.unavailable reason) capacity).calculate request).2.close now).store = _
      rw [calculate]
      split
      · next found _ => exact store_close_offer now _ capacity found.entry
      · rfl
  | history limit => rfl
  | cleanup => rfl

/-- A command that fails leaves the rows. -/
theorem effect_of_perform_eq_error {now : Int} {command : Command} {archive : Archive}
    {capacity : Nat} {failure : Failure}
    (h : ((start (.working archive) capacity).perform now command).1 = .error failure) :
    command.effect now archive = archive := by
  cases command with
  | calculate request =>
      rw [perform_calculate] at h
      rw [Command.effect, map_eq_error_iff.mp h]
  | history limit => rfl
  | cleanup => cases h

end Service

/-! ## One run -/

namespace CommandLine

@[simp] theorem Report.output_telling (isVerbose : Bool) (notice : String) (report : Report) :
    (report.telling isVerbose notice).output = report.output := by
  cases isVerbose <;> rfl

@[simp] theorem Report.failure_telling (isVerbose : Bool) (notice : String) (report : Report) :
    (report.telling isVerbose notice).failure = report.failure := by
  cases isVerbose <;> rfl

@[simp] theorem Report.output_exit (report : Report) : report.exit.output = report.output := by
  rw [exit]
  cases report.failure <;> rfl

theorem Report.code_exit_iff {report : Report} : report.exit.code = 0 ↔ report.failure = none := by
  rw [exit]
  cases report.failure <;> simp

/-- What is asked of the service, if the action is to ask it once. -/
def Action.command? : Action → Option Command
  | .eval expression mode _ => some (.calculate (.expression expression mode))
  | .sci operation value second _ => some (.calculate (.scientific value operation second))
  | .history limit _ => some (.history (Limit.orDefault limit))
  | .cleanup => some .cleanup
  | .serve _ _ | .calls => none

/-- The answer is printed as JSON. -/
def Action.isJson : Action → Bool
  | .eval _ _ json | .sci _ _ _ json | .history _ json => json
  | .cleanup | .serve _ _ | .calls => false

variable {action : Action} {command : Command}

theorem Action.run_of_command (h : action.command? = some command) (now : Int) (isVerbose : Bool)
    (input : String) (service : Service) :
    action.run now isVerbose input service = ask now action.isJson command service := by
  cases action with
  | eval expression mode json =>
      obtain rfl := Option.some.inj h
      rfl
  | sci operation value second json =>
      obtain rfl := Option.some.inj h
      rfl
  | history limit json =>
      obtain rfl := Option.some.inj h
      rfl
  | cleanup =>
      obtain rfl := Option.some.inj h
      rfl
  | serve host port => cases h
  | calls => cases h

theorem snd_ask (now : Int) (json : Bool) (command : Command) (service : Service) :
    (ask now json command service).2 = (service.perform now command).2 := by
  rw [ask]
  split
  · next heq => rw [heq]
  · next heq => rw [heq]

theorem failure_ask_iff {now : Int} {json : Bool} {command : Command} {service : Service} :
    (ask now json command service).1.failure = none ↔
      ∃ outcome, (service.perform now command).1 = .ok outcome := by
  rw [ask]
  split
  · next heq => simp [heq]
  · next heq => simp [heq, Report.failed]

theorem output_ask_of_ok {now : Int} {command : Command} {service : Service} {outcome : Outcome}
    (h : (service.perform now command).1 = .ok outcome) (json : Bool) :
    (ask now json command service).1.output = outcomeText json outcome := by
  rw [ask]
  split
  · next heq =>
    rw [heq] at h
    rw [Except.ok.inj h]
  · next heq =>
    rw [heq] at h
    cases h

variable {invocation : Invocation}

/-- **A run that asks the service once** ends with zero just if the service has an answer. -/
theorem code_run_iff (h : invocation.action.command? = some command) (now : Int) (input : String)
    (store : Store) :
    (invocation.run now input store).1.exit.code = 0 ↔
      ∃ outcome,
        ((Service.start store Service.defaultCapacity).perform now command).1 = .ok outcome := by
  rw [Report.code_exit_iff, Invocation.run, Action.run_of_command h, ← failure_ask_iff]
  exact iff_of_eq (congrArg (· = none) (Report.failure_telling _ _ _))

/-- What is printed is what is printed of the answer. -/
theorem output_run (h : invocation.action.command? = some command) (now : Int) (input : String)
    (store : Store) :
    (invocation.run now input store).1.exit.output =
      (ask now invocation.action.isJson command
        (Service.start store Service.defaultCapacity)).1.output := by
  rw [Report.output_exit, Invocation.run, Action.run_of_command h]
  exact Report.output_telling _ _ _

/-- What is left of the store is what the service leaves after the command. -/
theorem snd_run (h : invocation.action.command? = some command) (now : Int) (input : String)
    (store : Store) :
    (invocation.run now input store).2 =
      (((Service.start store Service.defaultCapacity).perform now command).2.close now).store := by
  rw [Invocation.run, Action.run_of_command h]
  show ((ask now invocation.action.isJson command _).2.close now).store = _
  rw [snd_ask]

end CommandLine

end Abacus
