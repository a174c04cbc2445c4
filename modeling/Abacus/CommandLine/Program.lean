import Abacus.CommandLine.Invocation
import Abacus.History.Table
import Abacus.Rpc.Handler
import Abacus.Text.Plain

/-!
# Program — what a run of the program prints and does

A run tells what it does where it is asked to, asks the service, and prints the answer or fails
with a message.

The writer of the history goes on beside the program.  Of the schedules of `History.Event.run` one is
taken here: the clock is read once for a run, and what a call records is written before the next call
(`answerCalls`).
-/

namespace Abacus.CommandLine

/-- What a run prints, and the message with which it fails. -/
structure Report where
  output : String
  notices : String
  failure : Option String
  deriving DecidableEq

namespace Report

/-- A line that is printed. -/
def line (text : String) : String :=
  Text.plain text ++ "\n"

/-- A run that fails. -/
def failed (message : String) : Report :=
  ⟨"", "", some message⟩

/-- Tell what is done before anything else, if it is asked for. -/
def telling (isVerbose : Bool) (notice : String) (report : Report) : Report :=
  if isVerbose then { report with notices := line notice ++ report.notices } else report

end Report

/-- What is printed of a calculation. -/
def calculationText (json : Bool) (c : Calculation) : String :=
  Report.line (if json then c.toJson.indented else c.line)

/-- What is printed of the history. -/
def historyText (json : Bool) (records : List History.Record) : String :=
  if json then Report.line (History.Record.listToJson records).indented
  else if records.isEmpty then
    Report.line s!"No calculations in the last {History.retentionDays} days."
  else Report.line s!"Found {records.length} calculation(s):\n" ++ History.table records

/-- What is printed of an answer. -/
def outcomeText (json : Bool) : Outcome → String
  | .calculation found => calculationText json found
  | .records found => historyText json found
  | .deleted count => Report.line s!"Deleted {count} old calculation(s)"

/-- Ask the service and print its answer. -/
def ask (now : Int) (json : Bool) (command : Command) (service : Service) : Report × Service :=
  match service.perform now command with
  | (.ok outcome, next) => (⟨outcomeText json outcome, "", none⟩, next)
  | (.error failure, next) => (.failed failure.message, next)

/-- What is printed of one call. -/
def callReport (isVerbose : Bool) (handled : Rpc.Handled) : Report :=
  let text := handled.response.text
  let notices := (handled.notices ++ ["MCP response: " ++ text]).map Report.line
  ⟨text ++ "\n", if isVerbose then String.join notices else "", none⟩

/-- Answer calls one after the other; what a call records is written before the next one. -/
def answerCalls (now : Int) (isVerbose : Bool) : List String → Service → Report × Service
  | [], service => (⟨"", "", none⟩, service)
  | call :: rest, service =>
      let handled := Rpc.handle now call service
      let report := callReport isVerbose handled
      let (later, last) := answerCalls now isVerbose rest (handled.service.flush now)
      (⟨report.output ++ later.output, report.notices ++ later.notices, none⟩, last)

/-- What is told about an action before it is done. -/
def Invocation.notice (invocation : Invocation) : String :=
  match invocation.action with
  | .eval expression mode _ => "Evaluating '" ++ expression ++ "' (" ++ mode.name ++ " mode)"
  | .sci operation value second _ =>
      "Applying " ++ operation ++ " to " ++ value.plain ++ " (second value: " ++
        Text.shownOption (second.map Double.noted) ++ ")"
  | .history limit _ => s!"Reading up to {limit} calculations from {invocation.database}"
  | .cleanup => s!"Removing calculations older than {History.retentionDays} days"
  | .serve host port => s!"Serving on {host}:{port}"
  | .calls => s!"Calculator MCP server ready on stdio (history: {invocation.database})"

/-- Do what the program is asked to do, with what comes in.  This program opens no network. -/
def Action.run (now : Int) (isVerbose : Bool) (input : String) (action : Action)
    (service : Service) : Report × Service :=
  match action with
  | .eval expression mode json => ask now json (.calculate (.expression expression mode)) service
  | .sci operation value second json =>
      ask now json (.calculate (.scientific value operation second)) service
  | .history limit json => ask now json (.history (Limit.orDefault limit)) service
  | .cleanup => ask now false .cleanup service
  | .serve host port => (.failed s!"Failed to bind to {host}:{port}", service)
  | .calls => answerCalls now isVerbose (Rpc.callsOf input) service

/-- Run the program over a store; the store holds all that was recorded when the run ends. -/
def Invocation.run (now : Int) (input : String) (invocation : Invocation) (store : History.Store) :
    Report × History.Store :=
  let service := Service.start store Service.defaultCapacity
  let (report, last) := invocation.action.run now invocation.isVerbose input service
  (report.telling invocation.isVerbose invocation.notice, (last.close now).store)

end Abacus.CommandLine
