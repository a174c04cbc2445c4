/-!
# Grammar — what the arguments of a command may be

A command has named arguments, which begin with dashes and may come anywhere, and positional ones,
which come in their order.  It may have further commands below it.
-/

namespace Abacus.CommandLine

/-- Why the arguments are not read to their end. -/
inductive Stop where
  | refused
  | help
  | version
  deriving DecidableEq

/-- An argument with a name. -/
structure Named where
  name : String
  short : Option Char
  takesValue : Bool
  /-- Reading stops at this argument. -/
  stop : Option Stop
  deriving DecidableEq

/-- An argument with a place. -/
structure Positional where
  name : String
  isRequired : Bool
  /-- The argument may begin with a dash. -/
  allowsDash : Bool
  deriving DecidableEq

/-- The arguments of one command. -/
structure Level where
  named : List Named
  positionals : List Positional
  commands : List String
  deriving DecidableEq

/-- A named argument that is there or not. -/
def Named.switch (name : String) (short : Option Char) : Named :=
  ⟨name, short, false, none⟩

/-- A named argument with a value. -/
def Named.setting (name : String) (short : Option Char) : Named :=
  ⟨name, short, true, none⟩

/-- The named argument that asks for help. -/
def Named.help : Named :=
  ⟨"help", some 'h', false, some .help⟩

/-- The named argument that asks for the version. -/
def Named.version : Named :=
  ⟨"version", some 'V', false, some .version⟩

namespace Level

/-- The named argument with the given name. -/
def named? (level : Level) (name : String) : Option Named :=
  level.named.find? fun argument => argument.name == name

/-- The named argument with the given letter. -/
def short? (level : Level) (letter : Char) : Option Named :=
  level.named.find? fun argument => argument.short == some letter

/-- The positional argument after so many others may begin with a dash. -/
def allowsDash (level : Level) (placed : Nat) : Bool :=
  level.positionals[placed]?.any Positional.allowsDash

/-- How many positional arguments there have to be. -/
def required (level : Level) : Nat :=
  (level.positionals.filter Positional.isRequired).length

end Level

end Abacus.CommandLine
