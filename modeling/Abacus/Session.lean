import Abacus.Http.Router
import Abacus.Rpc.Handler

/-!
# Session — one service behind all its doors

A session asks a service directly, over HTTP and by calls of tools, in any order and at any
reading of the clock.  After each step the recorder writes what is pending (`Step.advance`).  This is
one of the schedules of `History.Event.run`, in which the writer's turns may come at any time; what
they all come to once the queue is closed is told by `History.run_close_eq_shutdown`.
-/

namespace Abacus.Session

/-- One step of a session. -/
inductive Step where
  /-- A row is put into the store past the service. -/
  | seed (draft : History.Draft)
  | ask (command : Command)
  /-- Several calculations before the recorder writes any of them. -/
  | batch (requests : List Abacus.Request)
  | http (request : Http.Request)
  | call (text : String)
  /-- The recorder is shut down for good. -/
  | close

/-- What a step is answered with. -/
inductive Answer where
  | seeded (outcome : Except History.Store.Fault Unit)
  | service (answer : Except Failure Outcome)
  | batch (answers : List (Except Failure Calculation))
  | http (response : Http.Response)
  | call (response : Rpc.Response)
  | closed

/-- Calculate what is asked for, one after the other. -/
def calculateAll (service : Service) :
    List Abacus.Request → List (Except Failure Calculation) × Service
  | [] => ([], service)
  | request :: rest =>
      let (answer, next) := service.calculate request
      let (answers, last) := calculateAll next rest
      (answer :: answers, last)

/-- A step at the given time, before the recorder writes what is pending. -/
def Step.perform (now : Int) (service : Service) : Step → Answer × Service
  | .seed draft =>
      let (outcome, store) := History.Store.sink draft service.store
      (.seeded outcome, { service with store := store })
  | .ask command =>
      let (answer, next) := service.perform now command
      (.service answer, next)
  | .batch requests =>
      let (answers, next) := calculateAll service requests
      (.batch answers, next)
  | .http request =>
      let (response, next) := Http.respond now request service
      (.http response, next)
  | .call text =>
      let handled := Rpc.handle now text service
      (.call handled.response, handled.service)
  | .close => (.closed, service.close now)

/-- A step at the given time, and the writing of what is pending. -/
def Step.advance (now : Int) (service : Service) (step : Step) : Answer × Service :=
  let (answer, next) := step.perform now service
  (answer, next.flush now)

/-- The service after some steps, each at its own time. -/
def after (service : Service) (steps : List (Int × Step)) : Service :=
  steps.foldl (fun service timed => (timed.2.advance timed.1 service).2) service

end Abacus.Session
