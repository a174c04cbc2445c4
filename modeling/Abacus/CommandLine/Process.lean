import Abacus.CommandLine.Program

/-!
# Process — runs of the program one after the other

A run reads its arguments, opens the history that they name, and keeps it again when it ends.  A
history in memory begins without rows and is gone with the run; one that cannot be opened stays as it
is.  Different names are different histories.

Of the texts about the arguments only the line on the usage of the program is told (`usage`).  What is
wrong with them, the commands and the switches are told by the library that reads them, in its words.
-/

namespace Abacus.CommandLine

open History (Archive Store)

/-- How a run ends: with which code, and what it has printed. -/
structure Exit where
  code : Nat
  output : String
  errors : String
  deriving DecidableEq

/-- A run that fails ends with one, and tells why behind all that it has told before. -/
def Report.exit (report : Report) : Exit :=
  match report.failure with
  | none => ⟨0, report.output, report.notices⟩
  | some message => ⟨1, report.output, report.notices ++ "Error: \n   0: " ++ message ++ "\n"⟩

/-- How the program is called. -/
def usage : String :=
  "Usage: " ++ Rpc.programName ++ " [OPTIONS] <COMMAND>\n"

/-- A run whose arguments are not read to their end. -/
def Stop.exit : Stop → Exit
  | .refused => ⟨2, "", usage⟩
  | .help => ⟨0, usage, ""⟩
  | .version => ⟨0, Rpc.programName ++ " " ++ Rpc.programVersion ++ "\n", ""⟩

/-- The store that a history is opened as, by its name and what is found under it. -/
def opened (database : String) (found : Except String Archive) : Store :=
  if database == inMemory then .empty
  else
    match found with
    | .ok archive => .working archive
    | .error reason => .unavailable reason

/-- What is kept of a store under the name of the history. -/
def kept? (database : String) : Store → Option Archive
  | .working archive => if database == inMemory then none else some archive
  | .unavailable _ => none

/-- The histories that are kept, by the names of their files; one that is not there yet has no rows.
The names under which the database opens no file, the empty one and addresses, are not meant. -/
abbrev Disk := String → Archive

namespace Disk

/-- Keep rows under a name; what is kept under the others stays. -/
def keep (disk : Disk) (database : String) (archive : Archive) : Disk :=
  fun name => if name = database then archive else disk name

/-- Keep a store under a name, if it is one to be kept. -/
def keepStore (disk : Disk) (database : String) (store : Store) : Disk :=
  match kept? database store with
  | some archive => disk.keep database archive
  | none => disk

end Disk

/-- A run of the program: what it is given, what comes in, when it is, and the reason why no history
can be opened, if there is one. -/
structure Run where
  environment : Environment
  arguments : List String
  input : String
  now : Int
  obstacle : Option String

namespace Run

/-- What the run is asked to do. -/
def invocation (run : Run) : Except Stop Invocation :=
  Invocation.read run.environment run.arguments

/-- The store that the run opens. -/
def store (run : Run) (disk : Disk) (database : String) : Store :=
  opened database <|
    match run.obstacle with
    | some reason => .error reason
    | none => .ok (disk database)

/-- Do the run. -/
def perform (run : Run) (disk : Disk) : Exit × Disk :=
  match run.invocation with
  | .error stop => (stop.exit, disk)
  | .ok invocation =>
      let (report, last) := invocation.run run.now run.input (run.store disk invocation.database)
      (report.exit, disk.keepStore invocation.database last)

end Run

/-- The disk after some runs, one after the other. -/
def Disk.after (disk : Disk) (runs : List Run) : Disk :=
  runs.foldl (fun reached run => (run.perform reached).2) disk

end Abacus.CommandLine
