import Abacus.Text.Basic

/-!
# Alphabet — the characters an expression is written in

Digits, the point, the four operators, the two parentheses, and white space, which is dropped
before anything else is looked at.  A character that is kept remembers where it stood, counted
in bytes of UTF-8, so that a fault can name the place in the text as it was given.
-/

namespace Abacus.Expression

/-- A character of a number. -/
def isNumeric (c : Char) : Bool :=
  c.isDigit || c == '.'

/-- A character with a meaning of its own in arithmetic. -/
def isArithmetic (c : Char) : Bool :=
  isNumeric c || c == '+' || c == '-' || c == '*' || c == '/' || c == '(' || c == ')'

/-- A character that an expression may hold. -/
def isAllowed (c : Char) : Bool :=
  isArithmetic c || Text.isBlank c

/-- The text is not empty and holds allowed characters only. -/
def hasAllowedCharacters (text : String) : Bool :=
  !text.isEmpty && text.toList.all isAllowed

/-- A character and the byte offset at which it stands. -/
structure Mark where
  char : Char
  position : Nat
  deriving DecidableEq

/-- The characters of a text with their byte offsets, from the given offset on. -/
def marksFrom (position : Nat) : List Char → List Mark
  | [] => []
  | c :: rest => ⟨c, position⟩ :: marksFrom (position + c.utf8Size) rest

/-- The characters that are not blank, with their byte offsets. -/
def marks (text : String) : List Mark :=
  (marksFrom 0 text.toList).filter fun mark => !Text.isBlank mark.char

/-- Dropping the offsets of all characters leaves the characters. -/
theorem map_char_marksFrom (position : Nat) (text : List Char) :
    (marksFrom position text).map Mark.char = text := by
  induction text generalizing position with
  | nil => rfl
  | cons c rest ih => simp [marksFrom, ih]

/-- The marks of a text are its characters that are not blank, in order. -/
theorem map_char_marks (text : String) :
    (marks text).map Mark.char = text.toList.filter fun c => !Text.isBlank c := by
  have filtered : ∀ (p : Char → Bool) (l : List Mark),
      (l.filter fun mark => p mark.char).map Mark.char = (l.map Mark.char).filter p := by
    intro p l
    induction l with
    | nil => rfl
    | cons mark rest ih => by_cases h : p mark.char = true <;> simp [h, ih]
  simp only [marks]
  rw [filtered (fun c => !Text.isBlank c), map_char_marksFrom]

end Abacus.Expression
