import Abacus.Expression.Phrase

/-!
# Cursor — reading an expression with one place that moves

The readers of phrases hand on the lexemes that are left over, and each of them is made for the
number of signs and groups that may still be opened.  A walk does the same while the lexemes stay
where they are: a cursor says how far they have been read, and counts up and down the signs and
groups that are open.  A walk within a walk takes one more call, and a part that is joined on one
more turn.  Only so many calls may be open at once and only so many turns are taken; a walk that
would need more does not come to an end.
-/

namespace Abacus.Expression

/-- How far the lexemes have been read, and how many signs and groups are open. -/
structure Cursor where
  place : Nat
  depth : Nat
  /-- The most signs and groups that have been open at once. -/
  deepest : Nat
  deriving DecidableEq

namespace Cursor

/-- At a place, with some signs and groups open that no walk has opened. -/
def start (place depth : Nat) : Cursor :=
  ⟨place, depth, depth⟩

/-- One lexeme further on. -/
def advance (cursor : Cursor) : Cursor :=
  { cursor with place := cursor.place + 1 }

/-- One more sign or group is open. -/
def descend (cursor : Cursor) : Cursor :=
  { cursor with depth := cursor.depth + 1, deepest := max cursor.deepest (cursor.depth + 1) }

/-- One sign or group less is open. -/
def ascend (cursor : Cursor) : Cursor :=
  { cursor with depth := cursor.depth - 1 }

end Cursor

/-- Something that is read while the cursor moves.  It ends with a value or with a fault, or it does
not end. -/
abbrev Walk (α : Type) := ExceptT Fault (StateT Cursor Option) α

namespace Walk

/-- The lexeme at the cursor, if there is one. -/
def peek (lexemes : List Lexeme) : Walk (Option Lexeme) := do
  return lexemes[(← get).place]?

/-- The lexeme at the cursor, which moves on if there is one. -/
def next (lexemes : List Lexeme) : Walk (Option Lexeme) := do
  let found ← peek lexemes
  if found.isSome then modify Cursor.advance
  return found

/-- Open one more sign or group; one too many is a fault. -/
def descend : Walk Unit := do
  modify Cursor.descend
  if nestingLimit < (← get).depth then throw .tooDeep

/-- Close a sign or a group. -/
def ascend : Walk Unit :=
  modify Cursor.ascend

/-- No more calls may be open, or no more turns be taken. -/
def endless : Walk Tree :=
  fun _ => none

/-- Read on after `left`: while the lexeme at the cursor is an operator that joins here, one more
part is read and grouped to the left. -/
def joinOn (lexemes : List Lexeme) (joins : Operator → Bool) (part : Walk Tree) :
    (turns : Nat) → (left : Tree) → Walk Tree
  | 0, _ => endless
  | turns + 1, left => do
      match ← peek lexemes with
      | some ⟨.operator op, _⟩ =>
          if joins op then do
            modify Cursor.advance
            let right ← part
            joinOn lexemes joins part turns (.joined op left right)
          else return left
      | _ => return left

/-- Read what a sign stands before. -/
def signed (op : Operator) (operand : Walk Tree) : Walk Tree := do
  descend
  let inner ← operand
  ascend
  return .signed (op == .minus) inner

/-- Read the rest of a group that was opened at `position`. -/
def group (lexemes : List Lexeme) (sum : Walk Tree) (position : Nat) : Walk Tree := do
  descend
  let inner ← sum
  ascend
  match ← next lexemes with
  | some ⟨.closing, _⟩ => return inner
  | some found => throw (.expectedClosing found.token.text found.position)
  | none => throw (.unclosed position)

end Walk

/-- The parts of an expression: a primary is an operand without signs in front of it. -/
inductive Part where
  | sum
  | product
  | operand
  | primary
  deriving DecidableEq

open Walk in
/-- Read a part from the cursor on, with at most `height` calls open at once.  Nowhere are there
more turns than lexemes and the one that finds nothing to join. -/
def walk (lexemes : List Lexeme) : (height : Nat) → Part → Walk Tree
  | 0, _ => endless
  | height + 1, .sum => do
      let first ← walk lexemes height .product
      joinOn lexemes Operator.isAdditive (walk lexemes height .product) (lexemes.length + 1) first
  | height + 1, .product => do
      let first ← walk lexemes height .operand
      joinOn lexemes Operator.isMultiplicative (walk lexemes height .operand) (lexemes.length + 1)
        first
  | height + 1, .operand => do
      match ← peek lexemes with
      | some ⟨.operator op, _⟩ =>
          if op.isAdditive then do
            modify Cursor.advance
            signed op (walk lexemes height .operand)
          else walk lexemes height .primary
      | _ => walk lexemes height .primary
  | height + 1, .primary => do
      match ← next lexemes with
      | some ⟨.number digits, _⟩ => return .number digits
      | some ⟨.opening, position⟩ =>
          match ← peek lexemes with
          | some ⟨.closing, _⟩ => throw (.emptyGroup position)
          | _ => Walk.group lexemes (walk lexemes height .sum) position
      | some found => throw (.unexpected found.token.text found.position)
      | none => throw .unexpectedEnd

end Abacus.Expression
