/-!
# Mode — the category a calculation is recorded under
-/

namespace Abacus

/-- The category of a calculation. -/
inductive Mode where
  | standard
  | scientific
  deriving DecidableEq

namespace Mode

/-- The name of the mode. -/
def name : Mode → String
  | .standard => "standard"
  | .scientific => "scientific"

/-- The mode with exactly the given name. -/
def ofName? (name : String) : Option Mode :=
  if name = "standard" then some .standard
  else if name = "scientific" then some .scientific
  else none

/-- A text with its ASCII letters in lower case. -/
def lowered (text : String) : String :=
  String.ofList (text.toList.map Char.toLower)

/-- The mode named by a text in any case of its ASCII letters; otherwise the text in lower case,
which is what a message shows. -/
def parse (text : String) : Except String Mode :=
  match ofName? (lowered text) with
  | some mode => .ok mode
  | none => .error (lowered text)

/-- The wording for a text that names no mode. -/
def invalid (lower : String) : String :=
  "Invalid mode: " ++ lower

@[simp] theorem ofName?_name (mode : Mode) : ofName? mode.name = some mode := by
  cases mode <;> decide

@[simp] theorem parse_name (mode : Mode) : parse mode.name = .ok mode := by
  cases mode <;> rfl

end Mode

end Abacus
