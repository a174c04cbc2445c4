import Abacus.Expression.Lexeme

/-!
# Phrase — reading an expression from its lexemes

An expression is understood as a tree: numbers joined by the four operators, with signs in front of
parts of them.  Its value is computed in double arithmetic from the leaves up.

    sum     := product (('+' | '-') product)*
    product := operand (('*' | '/') operand)*
    operand := ('+' | '-') operand | number | '(' sum ')'

Each reader takes lexemes from the front and gives back what it read and the lexemes left over.
Signs and parentheses nest: a reader of operands is made for each number of nestings still
allowed, and the reader for none refuses the next sign or parenthesis.  A bound on the number of
operands in a row, `count`, makes the readers end; the number of lexemes is one.
-/

namespace Abacus.Expression

/-! ## Trees -/

/-- An expression with its grouping made plain. -/
inductive Tree where
  | number (digits : List Char)
  | signed (negative : Bool) (operand : Tree)
  | joined (op : Operator) (left right : Tree)
  deriving DecidableEq

/-- The value of an expression. -/
def Tree.value : Tree → Double
  | .number digits => literalValue digits
  | .signed true operand => -operand.value
  | .signed false operand => operand.value
  | .joined op left right => op.apply left.value right.value

/-! ## Readers -/

/-- A reader of one kind of phrase: a tree and the lexemes after it. -/
abbrev Phrase := List Lexeme → Except Fault (Tree × List Lexeme)

/-- How many signs and parentheses may be open at once. -/
def nestingLimit : Nat := 256

/-- Read on after `left`: while the next lexeme is an operator that joins here, one more operand
is read and grouped to the left.  At most `count` operands are read. -/
def chain (joins : Operator → Bool) (operand : Phrase) : (count : Nat) → (left : Tree) → Phrase
  | count + 1, left, ⟨.operator op, position⟩ :: rest =>
      if joins op then do
        let (right, rest) ← operand rest
        chain joins operand count (.joined op left right) rest
      else .ok (left, ⟨.operator op, position⟩ :: rest)
  | _, left, rest => .ok (left, rest)

/-- A first operand and all that is joined to it, at most `count` more. -/
def joinedBy (joins : Operator → Bool) (count : Nat) (operand : Phrase) : Phrase :=
  fun lexemes => do
    let (left, rest) ← operand lexemes
    chain joins operand count left rest

/-- Operands joined by times and over. -/
def product (count : Nat) (operand : Phrase) : Phrase :=
  joinedBy Operator.isMultiplicative count operand

/-- Products joined by plus and minus. -/
def sum (count : Nat) (operand : Phrase) : Phrase :=
  joinedBy Operator.isAdditive count (product count operand)

/-- Read the rest of a group that was opened at `position`. -/
def group (count : Nat) (operand : Phrase) (position : Nat) : Phrase := fun lexemes => do
  let (inner, rest) ← sum count operand lexemes
  match rest with
  | ⟨.closing, _⟩ :: rest => return (inner, rest)
  | found :: _ => throw (.expectedClosing found.token.text found.position)
  | [] => throw (.unclosed position)

/-- Read an operand, given the reader of the operands inside of it; there is none once as many
signs and parentheses are open as may be. -/
def operandWithin (count : Nat) (inner : Option Phrase) : Phrase
  | [] => .error .unexpectedEnd
  | ⟨.number digits, _⟩ :: rest => .ok (.number digits, rest)
  | ⟨.operator op, position⟩ :: rest =>
      if op.isAdditive then
        match inner with
        | none => .error .tooDeep
        | some operand => do
            let (tree, rest) ← operand rest
            return (.signed (op == .minus) tree, rest)
      else .error (.unexpected (String.singleton op.symbol) position)
  | ⟨.opening, position⟩ :: rest =>
      match rest with
      | ⟨.closing, _⟩ :: _ => .error (.emptyGroup position)
      | _ => match inner with
        | none => .error .tooDeep
        | some operand => group count operand position rest
  | ⟨.closing, position⟩ :: _ => .error (.unexpected ")" position)

/-- Read an operand inside of which `nestings` more signs and parentheses may be open. -/
def operand (count : Nat) : (nestings : Nat) → Phrase
  | 0 => operandWithin count none
  | nestings + 1 => operandWithin count (some (operand count nestings))

/-- Read an expression: a sum and nothing after it.  Nowhere are there more operands than
lexemes. -/
def read (lexemes : List Lexeme) : Except Fault Tree := do
  let count := lexemes.length
  let (tree, rest) ← sum count (operand count nestingLimit) lexemes
  match rest with
  | [] => return tree
  | found :: _ => throw (.unexpected found.token.text found.position)

end Abacus.Expression
