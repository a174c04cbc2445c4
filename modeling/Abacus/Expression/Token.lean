import Abacus.Expression.Alphabet
import Abacus.Decimal.Layout
import Abacus.Double.Arithmetic

/-!
# Token — the words of an expression

A number, one of the four operators, or a parenthesis.  A number keeps the digits it was written
with; its value is the nearest double.
-/

namespace Abacus

/-- The four operations of arithmetic. -/
inductive Operator where
  | plus
  | minus
  | times
  | over
  deriving DecidableEq

namespace Operator

/-- The character that stands for the operator. -/
def symbol : Operator → Char
  | .plus => '+'
  | .minus => '-'
  | .times => '*'
  | .over => '/'

/-- The operator that a character stands for. -/
def ofChar? : Char → Option Operator
  | '+' => some .plus
  | '-' => some .minus
  | '*' => some .times
  | '/' => some .over
  | _ => none

/-- The operation on two doubles. -/
def apply : Operator → Double → Double → Double
  | .plus => (· + ·)
  | .minus => (· - ·)
  | .times => (· * ·)
  | .over => (· / ·)

/-- The operator joins products into a sum. -/
def isAdditive : Operator → Bool
  | .plus | .minus => true
  | .times | .over => false

/-- The operator joins operands into a product. -/
def isMultiplicative : Operator → Bool
  | .plus | .minus => false
  | .times | .over => true

@[simp] theorem ofChar?_symbol (op : Operator) : ofChar? op.symbol = some op := by
  cases op <;> rfl

/-- A character stands for the operator whose symbol it is. -/
theorem ofChar?_eq_some_iff {c : Char} {op : Operator} : ofChar? c = some op ↔ op.symbol = c := by
  constructor
  · intro h
    unfold ofChar? at h
    split at h <;> simp_all [symbol]
    all_goals subst h; rfl
  · rintro rfl
    exact ofChar?_symbol op

end Operator

namespace Expression

/-- A run of digits and points is a number when it has a digit and at most one point. -/
def isLiteral (run : List Char) : Bool :=
  run.any Char.isDigit && run.count '.' ≤ 1

/-- The double nearest to the number that a run of digits and at most one point denotes. -/
def literalValue (run : List Char) : Double :=
  let whole := run.takeWhile Char.isDigit
  let fraction := (run.dropWhile Char.isDigit).drop 1
  (Decimal.ofParts whole fraction 0).toDouble false

/-- One word of an expression. -/
inductive Token where
  | number (digits : List Char)
  | operator (op : Operator)
  | opening
  | closing
  deriving DecidableEq

/-- The characters the token was written with. -/
def Token.spelling : Token → List Char
  | .number digits => digits
  | .operator op => [op.symbol]
  | .opening => ['(']
  | .closing => [')']

/-- How a message names the token: a number by its value. -/
def Token.text : Token → String
  | .number digits => (literalValue digits).plain
  | token => String.ofList token.spelling

/-- A token and the byte offset of its first character. -/
structure Lexeme where
  token : Token
  position : Nat
  deriving DecidableEq

end Expression

end Abacus
