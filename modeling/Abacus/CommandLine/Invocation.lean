import Abacus.CommandLine.Reading
import Abacus.Mode
import Abacus.Number

/-!
# Invocation — what the program is asked to do

The arguments name one of six commands.  Where the history is kept, and whether to tell what is
done, can be said at any command and in the environment.
-/

namespace Abacus.CommandLine

/-- The text is taken as an amount of at most `greatest`. -/
def amount? (greatest : Nat) (text : String) : Option Nat :=
  let digits := match text.toList with
    | '+' :: rest => rest
    | text => text
  if digits.isEmpty || !digits.all Char.isDigit || greatest < Decimal.valueOf digits then none
  else some (Decimal.valueOf digits)

/-- What the program is asked to do. -/
inductive Action where
  | eval (expression : String) (mode : Mode) (json : Bool)
  | sci (operation : String) (value : Double) (second : Option Double) (json : Bool)
  | history (limit : Nat) (json : Bool)
  | cleanup
  | serve (host : String) (port : Nat)
  /-- Answer the calls that come in, one a line. -/
  | calls
  deriving DecidableEq

/-- What the program is asked to do, and how. -/
structure Invocation where
  database : String
  isVerbose : Bool
  action : Action
  deriving DecidableEq

/-- What of the environment counts. -/
structure Environment where
  database : Option String
  verbose : Option String
  port : Option String
  deriving DecidableEq

/-- Where the history is kept if nothing is said. -/
def defaultDatabase : String := "data/calculations.db"

/-- The name of a history that is not kept. -/
def inMemory : String := ":memory:"

/-- The greatest limit that can be asked for. -/
def greatestLimit : Nat := 0xFFFFFFFFFFFFFFFF

/-- The greatest port. -/
def greatestPort : Nat := 0xFFFF

/-- The named arguments that every command has. -/
def common : List Named :=
  [.setting "database" none, .switch "verbose" none, .help]

/-- The arguments before the command. -/
def topLevel : Level :=
  ⟨common ++ [.version], [], ["eval", "sci", "history", "cleanup", "serve", "mcp", "help"]⟩

/-- The arguments of `eval`. -/
def evalLevel : Level :=
  ⟨[.setting "mode" (some 'm'), .switch "json" none] ++ common, [⟨"EXPRESSION", true, true⟩], []⟩

/-- The arguments of `sci`. -/
def sciLevel : Level :=
  ⟨.switch "json" none :: common,
    [⟨"OPERATION", true, false⟩, ⟨"VALUE", true, true⟩, ⟨"SECOND", false, true⟩], []⟩

/-- The arguments of `history`. -/
def historyLevel : Level :=
  ⟨[.setting "limit" (some 'l'), .switch "json" none] ++ common, [], []⟩

/-- The arguments of `serve`. -/
def serveLevel : Level :=
  ⟨[.setting "port" (some 'p'), .setting "host" none] ++ common, [], []⟩

/-- The arguments of `mcp`. -/
def callsLevel : Level :=
  ⟨common, [], ["stdio", "help"]⟩

/-- The arguments of a command without any of its own. -/
def plainLevel : Level :=
  ⟨common, [], []⟩

/-- What has been found, or a refusal. -/
def orRefuse (found : Option α) : Except Stop α :=
  match found with
  | some found => .ok found
  | none => .error .refused

namespace Action

/-- A calculation of an expression. -/
def ofEval (reading : Reading) : Except Stop Action := do
  let expression ← orRefuse reading.placed.head?
  let mode ← match reading.value? "mode" with
    | some text => orRefuse (Mode.parse text).toOption
    | none => pure .standard
  return .eval expression mode (reading.has "json")

/-- A scientific calculation. -/
def ofSci (reading : Reading) : Except Stop Action := do
  let operation ← orRefuse reading.placed[0]?
  let value ← orRefuse (reading.placed[1]?.bind fun text => Decimal.readDouble text.toList)
  let second ← match reading.placed[2]? with
    | some text => (orRefuse (Decimal.readDouble text.toList)).map some
    | none => pure none
  return .sci operation value second (reading.has "json")

/-- A look at the history. -/
def ofHistory (reading : Reading) : Except Stop Action := do
  let limit ← match reading.value? "limit" with
    | some text => orRefuse (amount? greatestLimit text)
    | none => pure Limit.default
  return .history limit (reading.has "json")

/-- A server. -/
def ofServe (port : Option String) (reading : Reading) : Except Stop Action := do
  let port ← match reading.value? "port" <|> port with
    | some text => orRefuse (amount? greatestPort text)
    | none => pure 3000
  return .serve ((reading.value? "host").getD "127.0.0.1") port

/-- Read the arguments after a command; the readings are those of the command and of the one
below it, if there is one. -/
def read (port : Option String) (command : String) (arguments : List String) :
    Except Stop (Action × List Reading) := do
  let finish (level : Level) (action : Reading → Except Stop Action) := do
    let reading ← level.read arguments
    return (← action reading, [reading])
  match command with
  | "eval" => finish evalLevel ofEval
  | "sci" => finish sciLevel ofSci
  | "history" => finish historyLevel ofHistory
  | "cleanup" => finish plainLevel fun _ => .ok .cleanup
  | "serve" => finish serveLevel (ofServe port)
  | "mcp" =>
      let outer ← callsLevel.read arguments
      match outer.command with
      | some ("stdio", rest) =>
          let inner ← plainLevel.read rest
          return (.calls, [outer, inner])
      | some _ => throw .help
      | none => throw .refused
  | _ => throw .help

end Action

/-- The text names a truth value. -/
def truth? (text : String) : Option Bool :=
  if text = "true" then some true else if text = "false" then some false else none

/-- Whether to tell what is done: said at a command or in the environment, which is looked at for
each command where it is not said. -/
def verbosity (environment : Environment) (readings : List Reading) : Except Stop Bool := do
  let said ← readings.mapM fun reading =>
    if reading.has "verbose" then pure true
    else
      match environment.verbose with
      | some text => orRefuse (truth? text)
      | none => pure false
  return said.any id

/-- Where the history is kept: what is said at the innermost command counts, then the
environment. -/
def databaseOf (environment : Environment) (readings : List Reading) : String :=
  ((readings.reverse.findSome? fun reading => reading.value? "database") <|>
    environment.database).getD defaultDatabase

/-- Read all arguments. -/
def Invocation.read (environment : Environment) (arguments : List String) :
    Except Stop Invocation := do
  let top ← topLevel.read arguments
  match top.command with
  | none => throw .refused
  | some (command, rest) =>
      let (action, readings) ← Action.read environment.port command rest
      let readings := top :: readings
      return ⟨databaseOf environment readings, ← verbosity environment readings, action⟩

end Abacus.CommandLine
