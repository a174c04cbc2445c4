import Abacus.Expression.Phrase

/-!
# Grammar — which tokens make up an expression

    sum     := product (('+' | '-') product)*
    product := operand (('*' | '/') operand)*
    operand := ('+' | '-') operand | number | '(' sum ')'

The rules say which lists of tokens are read as which trees, without saying how they are read.
Operands in a row are grouped to the left.  Each rule carries `room`, the number of signs and
groups that may be open at once inside of what it derives: a sign and a group use up one of it.
-/

namespace Abacus.Expression

mutual

/-- The tokens are a sum with the given tree. -/
inductive IsSum : (room : Nat) → List Token → Tree → Prop where
  | product {room : Nat} {tokens : List Token} {tree : Tree} :
      IsProduct room tokens tree → IsSum room tokens tree
  | joined {room : Nat} {op : Operator} {left right : List Token} {l r : Tree} :
      op = .plus ∨ op = .minus → IsSum room left l → IsProduct room right r →
        IsSum room (left ++ .operator op :: right) (.joined op l r)

/-- The tokens are a product with the given tree. -/
inductive IsProduct : (room : Nat) → List Token → Tree → Prop where
  | operand {room : Nat} {tokens : List Token} {tree : Tree} :
      IsOperand room tokens tree → IsProduct room tokens tree
  | joined {room : Nat} {op : Operator} {left right : List Token} {l r : Tree} :
      op = .times ∨ op = .over → IsProduct room left l → IsOperand room right r →
        IsProduct room (left ++ .operator op :: right) (.joined op l r)

/-- The tokens are an operand with the given tree. -/
inductive IsOperand : (room : Nat) → List Token → Tree → Prop where
  | number {room : Nat} {digits : List Char} :
      IsOperand room [.number digits] (.number digits)
  | plus {room : Nat} {tokens : List Token} {tree : Tree} :
      IsOperand room tokens tree →
        IsOperand (room + 1) (.operator .plus :: tokens) (.signed false tree)
  | minus {room : Nat} {tokens : List Token} {tree : Tree} :
      IsOperand room tokens tree →
        IsOperand (room + 1) (.operator .minus :: tokens) (.signed true tree)
  | group {room : Nat} {tokens : List Token} {tree : Tree} :
      IsSum room tokens tree →
        IsOperand (room + 1) (.opening :: tokens ++ [.closing]) tree

end

mutual

/-- An operand is one where there is more room. -/
theorem IsOperand.widen {room wider : Nat} {tokens : List Token} {tree : Tree} :
    IsOperand room tokens tree → room ≤ wider → IsOperand wider tokens tree
  | .number, _ => .number
  | .plus h, hroom => by
      obtain ⟨wider, rfl⟩ := Nat.exists_eq_add_of_le' (Nat.one_le_of_lt hroom)
      exact .plus (h.widen (Nat.le_of_succ_le_succ hroom))
  | .minus h, hroom => by
      obtain ⟨wider, rfl⟩ := Nat.exists_eq_add_of_le' (Nat.one_le_of_lt hroom)
      exact .minus (h.widen (Nat.le_of_succ_le_succ hroom))
  | .group h, hroom => by
      obtain ⟨wider, rfl⟩ := Nat.exists_eq_add_of_le' (Nat.one_le_of_lt hroom)
      exact .group (h.widen (Nat.le_of_succ_le_succ hroom))

/-- A product is one where there is more room. -/
theorem IsProduct.widen {room wider : Nat} {tokens : List Token} {tree : Tree} :
    IsProduct room tokens tree → room ≤ wider → IsProduct wider tokens tree
  | .operand h, hroom => .operand (h.widen hroom)
  | .joined hop hleft hright, hroom => .joined hop (hleft.widen hroom) (hright.widen hroom)

/-- A sum is one where there is more room. -/
theorem IsSum.widen {room wider : Nat} {tokens : List Token} {tree : Tree} :
    IsSum room tokens tree → room ≤ wider → IsSum wider tokens tree
  | .product h, hroom => .product (h.widen hroom)
  | .joined hop hleft hright, hroom => .joined hop (hleft.widen hroom) (hright.widen hroom)

end

/-- An operator that does not join products joins operands. -/
theorem Operator.times_or_over {op : Operator} (h : ¬ (op = .plus ∨ op = .minus)) :
    op = .times ∨ op = .over := by
  cases op <;> simp_all

/-- The token can begin an expression. -/
def Token.begins : Token → Prop
  | .number _ | .operator .plus | .operator .minus | .opening => True
  | .operator .times | .operator .over | .closing => False

/-- The tokens are not empty and the first of them can begin an expression. -/
def BeginsWell (tokens : List Token) : Prop :=
  ∃ first rest, tokens = first :: rest ∧ first.begins

/-- What begins well goes on beginning well when more is put after it. -/
theorem BeginsWell.append {tokens : List Token} (h : BeginsWell tokens) (more : List Token) :
    BeginsWell (tokens ++ more) := by
  obtain ⟨first, rest, rfl, hb⟩ := h
  exact ⟨first, rest ++ more, rfl, hb⟩

/-- An operand begins with a number, a sign or an opening parenthesis. -/
theorem IsOperand.beginsWell {room : Nat} {tokens : List Token} {tree : Tree}
    (h : IsOperand room tokens tree) : BeginsWell tokens := by
  cases h with
  | number => exact ⟨_, _, rfl, trivial⟩
  | plus _ => exact ⟨_, _, rfl, trivial⟩
  | minus _ => exact ⟨_, _, rfl, trivial⟩
  | group _ => exact ⟨_, _, rfl, trivial⟩

/-- A product begins as its first operand does. -/
theorem IsProduct.beginsWell {room : Nat} {tokens : List Token} {tree : Tree} :
    IsProduct room tokens tree → BeginsWell tokens
  | .operand h => h.beginsWell
  | .joined _ h _ => h.beginsWell.append _

/-- A sum begins as its first product does. -/
theorem IsSum.beginsWell {room : Nat} {tokens : List Token} {tree : Tree} :
    IsSum room tokens tree → BeginsWell tokens
  | .product h => h.beginsWell
  | .joined _ h _ => h.beginsWell.append _

end Abacus.Expression
