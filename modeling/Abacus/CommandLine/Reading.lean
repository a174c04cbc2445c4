import Abacus.CommandLine.Grammar

/-!
# Reading — arguments taken apart

A named argument is written `--name`, with its value after an equals sign or as the next argument.
Letters may be written together after one dash, and the last of them may have a value.  After two
dashes alone all arguments are positional.  A named argument may be given once.

Where a positional argument may begin with a dash, an argument that names nothing is taken for it;
letters written together then all have to be known.
-/

namespace Abacus.CommandLine

/-- What has been read of the arguments of one command. -/
structure Reading where
  /-- The named arguments with their values. -/
  given : List (Named × Option String)
  placed : List String
  /-- The command below, and the arguments after it. -/
  command : Option (String × List String)
  deriving DecidableEq

/-- What an argument is: named ones, the last of which may wait for its value, or a value. -/
inductive Piece where
  | named (given : List (Named × Option String)) (pending : Option Named)
  | value

namespace Reading

/-- Nothing has been read. -/
def empty : Reading :=
  ⟨[], [], none⟩

/-- The named argument has been given. -/
def has (reading : Reading) (name : String) : Bool :=
  reading.given.any fun entry => entry.1.name == name

/-- The value of a named argument. -/
def value? (reading : Reading) (name : String) : Option String :=
  (reading.given.find? fun entry => entry.1.name == name).bind (·.2)

/-- Take a named argument over, unless it was given before. -/
def give (reading : Reading) (entry : Named × Option String) : Except Stop Reading :=
  if reading.has entry.1.name then .error .refused
  else .ok { reading with given := reading.given ++ [entry] }

end Reading

namespace Level

/-- Take a positional argument over, if there is a place for it. -/
def place (level : Level) (reading : Reading) (argument : String) : Except Stop Reading :=
  if reading.placed.length < level.positionals.length then
    .ok { reading with placed := reading.placed ++ [argument] }
  else .error .refused

/-- A named argument without a value attached. -/
def bare (argument : Named) : Except Stop Piece :=
  match argument.stop with
  | some stop => .error stop
  | none =>
      if argument.takesValue then .ok (.named [] (some argument))
      else .ok (.named [(argument, none)] none)

/-- What an argument after two dashes is. -/
def longPiece (level : Level) (placed : Nat) (text : List Char) : Except Stop Piece :=
  match level.named? (String.ofList (text.takeWhile (· != '='))) with
  | none => if level.allowsDash placed then .ok .value else .error .refused
  | some argument =>
      match text.dropWhile (· != '=') with
      | _ :: value =>
          if argument.takesValue then
            .ok (.named [(argument, some (String.ofList value))] none)
          else .error .refused
      | [] => bare argument

/-- What letters after one dash are, all of them named arguments. -/
def lettersPiece (level : Level) : List Char → Except Stop Piece
  | [] => .ok (.named [] none)
  | letter :: rest =>
      match level.short? letter with
      | none => .error .refused
      | some argument =>
          if argument.takesValue && !rest.isEmpty then
            let value := match rest with
              | '=' :: value => value
              | value => value
            .ok (.named [(argument, some (String.ofList value))] none)
          else do
            let first ← bare argument
            match first, ← lettersPiece level rest with
            | .named given none, .named more pending => return .named (given ++ more) pending
            | piece, _ => return piece

/-- What letters after one dash are. -/
def shortPiece (level : Level) (placed : Nat) (letters : List Char) : Except Stop Piece :=
  if level.allowsDash placed && !letters.all (fun letter => (level.short? letter).isSome) then
    .ok .value
  else lettersPiece level letters

/-- What an argument is. -/
def piece (level : Level) (placed : Nat) (argument : String) : Except Stop Piece :=
  match argument.toList with
  | '-' :: '-' :: text => longPiece level placed text
  | '-' :: letter :: letters => shortPiece level placed (letter :: letters)
  | _ => .ok .value

/-- Read arguments.  A named argument may wait for its value, and nothing else but a value may
then come. -/
def readFrom (level : Level) :
    (pending : Option Named) → (trailing : Bool) → Reading → List String → Except Stop Reading
  | some _, _, _, [] => .error .refused
  | none, _, reading, [] => .ok reading
  | some _, true, _, _ => .error .refused
  | none, true, reading, argument :: rest => do
      readFrom level none true (← level.place reading argument) rest
  | none, false, reading, argument :: rest =>
      if level.commands.contains argument then
        .ok { reading with command := some (argument, rest) }
      else if argument == "--" then readFrom level none true reading rest
      else do
        match ← level.piece reading.placed.length argument with
        | .value => readFrom level none false (← level.place reading argument) rest
        | .named given next => readFrom level next false (← given.foldlM Reading.give reading) rest
  | some argument, false, reading, text :: rest =>
      if text == "--" then .error .refused
      else
        match level.piece reading.placed.length text with
        | .ok .value => do
            readFrom level none false (← reading.give (argument, some text)) rest
        | _ => .error .refused

/-- Read the arguments of one command up to the command below it. -/
def read (level : Level) (arguments : List String) : Except Stop Reading := do
  let reading ← readFrom level none false .empty arguments
  if level.required ≤ reading.placed.length then return reading else throw .refused

end Level

end Abacus.CommandLine
