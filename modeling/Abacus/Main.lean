import Abacus.CommandLine.Process
import Std.Time.DateTime.Timestamp

/-!
# The program

Reads the arguments and the environment, opens the history, runs, keeps the history and prints.
-/

namespace Abacus.CommandLine

/-- The folder that a file is in; empty if none is named. -/
def folderOf (path : String) : String :=
  String.ofList ((path.toList.reverse.dropWhile (· != '/')).drop 1).reverse

/-- Read the rows that are kept under the given name, or the reason why that cannot be done. -/
def readArchive (database : String) : IO (Except String History.Archive) := do
  try
    let folder := folderOf database
    if !folder.isEmpty then IO.FS.createDirAll folder
    let file ← IO.FS.Handle.mk database .append
    file.flush
    let text ← IO.FS.readFile database
    if text.isEmpty then return .ok .empty
    return (Json.decodeText History.Archive.decoder text).mapError Json.Fault.detail
  catch e => return .error ("IO error: " ++ toString e)

/-- Open the history with the given name. -/
def openStore (database : String) : IO History.Store := do
  -- a history in memory has no file
  let found ← if database == inMemory then pure (.ok .empty) else readArchive database
  return opened database found

/-- Keep the history under the given name. -/
def keepStore (database : String) (store : History.Store) : IO Unit :=
  match kept? database store with
  | some archive => IO.FS.writeFile database archive.toJson.compact
  | none => pure ()

/-- What of the environment counts. -/
def readEnvironment : IO Environment := do
  return ⟨← IO.getEnv "CALCULATOR_DB", ← IO.getEnv "CALCULATOR_VERBOSE", ← IO.getEnv "PORT"⟩

/-- The present time, in milliseconds from the start of 1970. -/
def readClock : IO Int := do
  return (← Std.Time.Timestamp.now).toMillisecondsSinceUnixEpoch.val

/-- Print what a run prints, and end with its code. -/
def printExit (exit : Exit) : IO UInt32 := do
  IO.eprint exit.errors
  IO.print exit.output
  (← IO.getStdout).flush
  return exit.code.toUInt32

/-- Answer the calls of each line as it comes in, and keep the history after each. -/
partial def answerLines (invocation : Invocation) (service : Service) : IO UInt32 := do
  let line ← (← IO.getStdin).getLine
  if line.isEmpty then return 0
  let (report, next) :=
    answerCalls (← readClock) invocation.isVerbose (Rpc.callsOf line) service
  let _ ← printExit report.exit
  keepStore invocation.database next.store
  answerLines invocation next

/-- Do what the program is asked to do. -/
def runInvocation (invocation : Invocation) : IO UInt32 := do
  let store ← openStore invocation.database
  match invocation.action with
  | .calls =>
      if invocation.isVerbose then IO.eprint (Report.line invocation.notice)
      answerLines invocation (.start store Service.defaultCapacity)
  | _ =>
      let (report, last) := invocation.run (← readClock) "" store
      keepStore invocation.database last
      printExit report.exit

end Abacus.CommandLine

/-- Read the arguments and do what they say. -/
def main (arguments : List String) : IO UInt32 := do
  let environment ← Abacus.CommandLine.readEnvironment
  match Abacus.CommandLine.Invocation.read environment arguments with
  | .ok invocation => Abacus.CommandLine.runInvocation invocation
  | .error stop => Abacus.CommandLine.printExit stop.exit
