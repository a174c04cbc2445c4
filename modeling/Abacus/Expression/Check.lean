import Abacus.Expression.Alphabet

/-!
# Check — what an expression must look like before it is read

A check of form only: there must be something in it, its parentheses must balance, and its
characters must be allowed.  `1//2` and `()` pass; reading them fails later.
-/

namespace Abacus.Expression

/-- Why an expression is not even read. -/
inductive Objection where
  | missing
  | blank
  | unbalanced
  | foreign
  deriving DecidableEq

/-- The wording of an objection. -/
def Objection.message : Objection → String
  | .missing => "Expression must be a non-empty string"
  | .blank => "Expression cannot be empty"
  | .unbalanced => "Unbalanced parentheses"
  | .foreign => "Invalid characters in expression"

/-- Every parenthesis closes an earlier one and, with `depth` open at the start, none is left
open. -/
def isBalanced (depth : Nat) : List Char → Bool
  | [] => depth == 0
  | c :: rest =>
      if c == '(' then isBalanced (depth + 1) rest
      else if c == ')' then depth != 0 && isBalanced (depth - 1) rest
      else isBalanced depth rest

/-- The first objection to an expression, if there is one.  White space counts for nothing but
the difference between an empty text and a blank one. -/
def objection (text : String) : Option Objection :=
  let kept := text.toList.filter fun c => !Text.isBlank c
  if text.isEmpty then some .missing
  else if kept.isEmpty then some .blank
  else if !isBalanced 0 kept then some .unbalanced
  else if !kept.all isArithmetic then some .foreign
  else none

end Abacus.Expression
