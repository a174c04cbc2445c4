import Abacus.CommandLine.Reading

/-!
# Plan — the checks that keep a workspace in order

The formatting, the lints and the tests are checked in this order, and each may be left out.  The
first two can be asked to mend what they find.
-/

namespace Abacus.Upkeep

open CommandLine (Level Named Reading Stop)

/-- Which checks are made, and how. -/
structure Choice where
  isVerbose : Bool
  skipsFormat : Bool
  skipsLints : Bool
  skipsTests : Bool
  mends : Bool
  deriving DecidableEq

/-- All checks, without mending. -/
def Choice.default : Choice :=
  ⟨false, false, false, false, false⟩

/-- The check of the formatting. -/
def formatStep (mends : Bool) : String :=
  if mends then "cargo fmt --all" else "cargo fmt --all --check"

/-- The check of the lints. -/
def lintStep (mends : Bool) : String :=
  if mends then "cargo clippy --workspace --all-targets --fix --allow-dirty -- -D warnings"
  else "cargo clippy --workspace --all-targets -- -D warnings"

/-- The tests. -/
def testStep : String := "cargo test --workspace"

/-- The checks in their order. -/
def steps (choice : Choice) : List String :=
  (if choice.skipsFormat then [] else [formatStep choice.mends]) ++
    (if choice.skipsLints then [] else [lintStep choice.mends]) ++
    if choice.skipsTests then [] else [testStep]

/-- What is kept of the output of a check. -/
def entry (name output : String) : String :=
  "=== " ++ name ++ " ===\n" ++ output ++ "\n"

/-- The arguments before the command. -/
def topLevel : Level :=
  ⟨[.help], [], ["lint", "help"]⟩

/-- The arguments of the command. -/
def lintLevel : Level :=
  ⟨[.switch "verbose" (some 'v'), .switch "no-fmt" none, .switch "no-clippy" none,
      .switch "no-test" none, .switch "fix" none, .help], [], []⟩

/-- The choice that arguments make. -/
def Choice.ofReading (reading : Reading) : Choice :=
  ⟨reading.has "verbose", reading.has "no-fmt", reading.has "no-clippy", reading.has "no-test",
    reading.has "fix"⟩

/-- Read all arguments; without a command all checks are made. -/
def Choice.read (arguments : List String) : Except Stop Choice := do
  match (← topLevel.read arguments).command with
  | none => return .default
  | some ("lint", rest) => return .ofReading (← lintLevel.read rest)
  | some _ => throw .help

end Abacus.Upkeep
