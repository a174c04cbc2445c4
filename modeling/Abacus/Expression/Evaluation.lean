import Abacus.Expression.Phrase
import Abacus.Refusal

/-!
# Evaluation — the value of an expression

White space is dropped, the characters are checked, cut into lexemes and read as a tree, and the
tree is computed.  Infinite and undefined values may appear on the way; only the value of the
whole has to be finite.
-/

namespace Abacus.Expression

/-- The tree that a text is read as. -/
def parse (text : String) : Except Fault Tree := do
  let kept := marks text
  if kept.isEmpty then throw .empty
  if !hasAllowedCharacters text then throw .foreign
  read (← lexemes kept)

/-- The finite value of an expression. -/
def evaluate (text : String) : Except Fault Double := do
  let value := (← parse text).value
  if value.isFinite then return value else throw .notFinite

end Abacus.Expression

namespace Abacus

/-- The finite value of an expression, as it is answered: a fault is a refusal to evaluate. -/
def computeExpression (text : String) : Except Refusal Double :=
  (Expression.evaluate text).mapError fun fault => .evaluation fault.message

end Abacus
