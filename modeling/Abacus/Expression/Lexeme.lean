import Abacus.Expression.Token

/-!
# Lexemes — cutting an expression into tokens

From left to right: a longest run of digits and points is one number, every other character is a
token of its own.  An operator written twice in a row is none of the four and is refused where
it begins.

All causes for which an expression has no value are worded in one place (`Fault.detail`).  A position
is a byte offset into the text as it was given.
-/

namespace Abacus.Expression

/-! ## Faults -/

/-- Why an expression has no value. -/
inductive Fault where
  | empty
  | foreign
  | malformed (digits : String) (position : Nat)
  | unexpected (found : String) (position : Nat)
  | emptyGroup (position : Nat)
  | expectedClosing (found : String) (position : Nat)
  | unclosed (position : Nat)
  | unexpectedEnd
  | tooDeep
  | notFinite
  deriving DecidableEq

/-- The wording of a fault, without the words that all but two of them begin with. -/
def Fault.detail : Fault → String
  | .empty => "Invalid expression"
  | .foreign => "Invalid characters in expression"
  | .malformed digits position => s!"Malformed number '{digits}' at position {position}"
  | .unexpected found position => s!"Unexpected '{found}' at position {position}"
  | .emptyGroup position => s!"Empty parentheses at position {position}"
  | .expectedClosing found position =>
      s!"Expected ')' but found '{found}' at position {position}"
  | .unclosed position => s!"Missing ')' for '(' at position {position}"
  | .unexpectedEnd => "Unexpected end of expression"
  | .tooDeep => "Expression is nested too deeply"
  | .notFinite => "Invalid calculation result"

/-- The wording of a fault. -/
def Fault.message (fault : Fault) : String :=
  match fault with
  | .empty | .foreign => fault.detail
  | _ => "Expression evaluation failed: " ++ fault.detail

/-! ## Cutting -/

/-- The token that one character is, numbers apart. -/
def Token.ofChar? (c : Char) : Option Token :=
  if c == '(' then some .opening
  else if c == ')' then some .closing
  else (Operator.ofChar? c).map .operator

/-- The operator `c` is followed by itself. -/
def isDoubled (c : Char) (rest : List Mark) : Bool :=
  (Operator.ofChar? c).isSome && rest.head?.any fun next => next.char == c

theorem length_dropWhile_le (p : α → Bool) (l : List α) : (l.dropWhile p).length ≤ l.length := by
  induction l with
  | nil => exact Nat.le_refl 0
  | cons x rest ih =>
      rw [List.dropWhile_cons]
      split
      · exact Nat.le_succ_of_le ih
      · exact Nat.le_refl _

/-- Cut the characters, none of them blank, into tokens.  The first place that is no token is
the fault. -/
def lexemes : List Mark → Except Fault (List Lexeme)
  | [] => .ok []
  | mark :: rest =>
      if isNumeric mark.char then
        let digits := mark.char :: (rest.takeWhile fun next => isNumeric next.char).map Mark.char
        if isLiteral digits then do
          let later ← lexemes (rest.dropWhile fun next => isNumeric next.char)
          return ⟨.number digits, mark.position⟩ :: later
        else .error (.malformed (String.ofList digits) mark.position)
      else
        match Token.ofChar? mark.char with
        | none => .error (.unexpected (String.singleton mark.char) mark.position)
        | some token =>
            if isDoubled mark.char rest then
              .error (.unexpected (String.ofList [mark.char, mark.char]) mark.position)
            else do
              let later ← lexemes rest
              return ⟨token, mark.position⟩ :: later
termination_by marks => marks.length
decreasing_by
  · have := length_dropWhile_le (fun next : Mark => isNumeric next.char) rest
    simp only [List.length_cons]
    omega
  · simp

end Abacus.Expression
