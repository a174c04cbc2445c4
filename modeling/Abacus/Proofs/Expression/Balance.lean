import Abacus.Expression.Check
import Abacus.Proofs.Expression.Cut
import Abacus.Proofs.Expression.Grammar

/-!
# Balance — a text that is derived has its parentheses in order

The check of an expression counts the parentheses of the text, the grammar nests them.  A text is
balanced when its tokens are (`IsCut.isBalanced_eq`), and what the grammar derives closes just what
it opens, whatever stands around it (`IsSum.closes`).
-/

namespace Abacus.Expression

/-! ## The parentheses among the tokens -/

/-- Every closing parenthesis closes an earlier one and, with `depth` open at the start, none is
left open. -/
def areBalanced : (depth : Nat) → List Token → Bool
  | depth, [] => depth == 0
  | depth, .opening :: rest => areBalanced (depth + 1) rest
  | depth, .closing :: rest => depth != 0 && areBalanced (depth - 1) rest
  | depth, .number _ :: rest => areBalanced depth rest
  | depth, .operator _ :: rest => areBalanced depth rest

/-- A character that is no parenthesis does not count. -/
theorem isBalanced_cons {c : Char} (hopening : c ≠ '(') (hclosing : c ≠ ')') (depth : Nat)
    (rest : List Char) : isBalanced depth (c :: rest) = isBalanced depth rest := by
  rw [isBalanced, if_neg (by simp [hopening]), if_neg (by simp [hclosing])]

/-- A stretch of digits and points does not count. -/
theorem isBalanced_append {digits : List Char} (numeric : ∀ c ∈ digits, isNumeric c = true)
    (depth : Nat) (rest : List Char) :
    isBalanced depth (digits ++ rest) = isBalanced depth rest := by
  induction digits with
  | nil => rfl
  | cons c digits ih =>
      have hc : isNumeric c = true := numeric c (List.mem_cons_self ..)
      have hopening : c ≠ '(' := by
        rintro rfl
        exact nomatch hc
      have hclosing : c ≠ ')' := by
        rintro rfl
        exact nomatch hc
      rw [List.cons_append, isBalanced_cons hopening hclosing]
      exact ih fun d hd => numeric d (List.mem_cons_of_mem _ hd)

/-- A text is balanced when its tokens are. -/
theorem IsCut.isBalanced_eq {text : List Char} {tokens : List Token} (h : IsCut text tokens)
    (depth : Nat) : isBalanced depth text = areBalanced depth tokens := by
  induction h generalizing depth with
  | nil => rfl
  | number _ numeric _ _ ih => rw [isBalanced_append numeric, ih, areBalanced]
  | operator op _ ih =>
      have hopening : op.symbol ≠ '(' := by cases op <;> decide
      have hclosing : op.symbol ≠ ')' := by cases op <;> decide
      rw [isBalanced_cons hopening hclosing, ih, areBalanced]
  | opening _ ih => exact ih (depth + 1)
  | closing _ ih => exact congrArg (depth != 0 && ·) (ih (depth - 1))

/-! ## What is derived -/

/-- The tokens close all that they open and nothing else, whatever stands around them. -/
def Closes (tokens : List Token) : Prop :=
  ∀ depth rest, areBalanced depth (tokens ++ rest) = areBalanced depth rest

/-- Tokens that close, one after the other. -/
theorem Closes.joined {left right : List Token} (hleft : Closes left) (hright : Closes right)
    (op : Operator) : Closes (left ++ .operator op :: right) := by
  intro depth rest
  rw [List.append_assoc, hleft, List.cons_append, areBalanced, hright]

/-- A sign in front of tokens that close. -/
theorem Closes.signed {tokens : List Token} (h : Closes tokens) (op : Operator) :
    Closes (.operator op :: tokens) :=
  h

/-- Parentheses around tokens that close. -/
theorem Closes.group {tokens : List Token} (h : Closes tokens) :
    Closes (.opening :: tokens ++ [.closing]) := by
  intro depth rest
  rw [List.append_assoc, List.cons_append, areBalanced, h]
  -- the parenthesis that was opened is the one that is closed
  rfl

mutual

/-- An operand closes what it opens. -/
theorem IsOperand.closes {room : Nat} {tokens : List Token} {tree : Tree} :
    IsOperand room tokens tree → Closes tokens
  | .number => fun _ _ => rfl
  | .plus h => h.closes.signed .plus
  | .minus h => h.closes.signed .minus
  | .group h => h.closes.group

/-- A product closes what it opens. -/
theorem IsProduct.closes {room : Nat} {tokens : List Token} {tree : Tree} :
    IsProduct room tokens tree → Closes tokens
  | .operand h => h.closes
  | .joined _ hleft hright => hleft.closes.joined hright.closes _

/-- A sum closes what it opens. -/
theorem IsSum.closes {room : Nat} {tokens : List Token} {tree : Tree} :
    IsSum room tokens tree → Closes tokens
  | .product h => h.closes
  | .joined _ hleft hright => hleft.closes.joined hright.closes _

end

/-- A text whose tokens are derived is balanced. -/
theorem IsCut.isBalanced {text : List Char} {tokens : List Token} (hcut : IsCut text tokens)
    {room : Nat} {tree : Tree} (h : IsSum room tokens tree) : isBalanced 0 text = true := by
  have hwhole := h.closes 0 []
  rw [List.append_nil] at hwhole
  rw [hcut.isBalanced_eq, hwhole]
  rfl

end Abacus.Expression
