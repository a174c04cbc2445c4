/-!
# Plain text — what is printed where a terminal might be

Sequences that a terminal would take as commands, and control characters other than white space,
are left out.  A sequence begins with an escape; white space inside of it ends it.
-/

namespace Abacus.Text

/-- What a terminal would be reading. -/
inductive Terminal where
  | ground
  /-- After an escape. -/
  | escape
  /-- After an escape and marks that go on with it. -/
  | marks
  /-- In a control sequence, after an escape and a bracket. -/
  | control
  /-- In a string for the terminal, up to its end. -/
  | string
  deriving DecidableEq

/-- The character is white space of ASCII, other than the vertical tab. -/
def isPlainSpace (c : Char) : Bool :=
  c == ' ' || c == '\t' || c == '\n' || c == '\r' || c == '\x0c'

/-- What a terminal reads after a character that is not printed. -/
def Terminal.next (terminal : Terminal) (c : Char) : Terminal :=
  if c == '\x1b' then .escape
  else if c == '\x18' || c == '\x1a' then .ground
  else
    match terminal with
    | .ground => .ground
    | .escape =>
        if c == '[' then .control
        else if c == ']' || c == 'P' || c == 'X' || c == '^' || c == '_' then .string
        else if ' ' ≤ c && c ≤ '/' then .marks
        else if '0' ≤ c && c ≤ '~' then .ground
        else .escape
    | .marks => if '0' ≤ c && c ≤ '~' then .ground else .marks
    | .control => if '@' ≤ c && c ≤ '~' then .ground else .control
    | .string => if c == '\x07' then .ground else .string

/-- The character is printed. -/
def Terminal.prints (terminal : Terminal) (c : Char) : Bool :=
  match terminal with
  | .ground => (' ' ≤ c && c != '\x7f') || isPlainSpace c
  | .escape | .marks | .control => isPlainSpace c && c != ' '
  | .string => false

/-- What is printed of a text from a point on. -/
def plainFrom : Terminal → List Char → List Char
  | _, [] => []
  | terminal, c :: rest =>
      if terminal.prints c then c :: plainFrom .ground rest
      else plainFrom (terminal.next c) rest

/-- What is printed of a text. -/
def plain (text : String) : String :=
  String.ofList (plainFrom .ground text.toList)

/-- A text without control characters is printed as it is. -/
theorem plainFrom_ground {text : List Char} (h : ∀ c ∈ text, Terminal.prints .ground c = true) :
    plainFrom .ground text = text := by
  induction text with
  | nil => rfl
  | cons c rest ih =>
      have hc := h c (by simp)
      unfold plainFrom
      rw [if_pos hc, ih fun d hd => h d (by simp [hd])]

end Abacus.Text
