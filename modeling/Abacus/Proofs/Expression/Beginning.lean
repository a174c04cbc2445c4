import Abacus.Proofs.Expression.Balance

/-!
# Beginning — what an expression can begin with

From left to right through an expression there is either an operand to come or one that has just
ended, and some signs and groups are open.  This much, the `Standing`, says which token can follow
(`Step`).  What the grammar derives can be followed from its first token to its last
(`IsSum.leads`), and tokens that can be followed can be continued to an expression: they describe
one but for the operand and the closing parentheses that are missing (`Leads.describes`).  So
tokens are the beginning of an expression exactly when they can be followed
(`isBeginning_iff`).
-/

namespace Abacus.Expression

/-! ## The standing between two tokens -/

/-- Where one stands in an expression.  For each group that is open the signs in front of it are
counted, the innermost group first. -/
inductive Standing where
  /-- An operand is to come, with so many signs in front of it. -/
  | awaiting (signs : Nat) (groups : List Nat)
  /-- An operand has just ended. -/
  | complete (groups : List Nat)
  deriving DecidableEq

/-- Groups count for themselves and for the signs in front of them. -/
def nestings : List Nat → Nat
  | [] => 0
  | signs :: groups => nestings groups + signs + 1

namespace Standing

/-- Nothing has been read. -/
def start : Standing :=
  .awaiting 0 []

/-- The groups that are open, by the signs in front of them. -/
def groups : Standing → List Nat
  | .awaiting _ groups | .complete groups => groups

/-- How many signs and groups are open. -/
def depth : Standing → Nat
  | .awaiting signs groups => nestings groups + signs
  | .complete groups => nestings groups

end Standing

/-- The token can follow, and leads from the first standing to the second, with no more signs and
groups open at once than the limit. -/
inductive Step (limit : Nat) : Standing → Token → Standing → Prop where
  | number {signs : Nat} {groups : List Nat} (digits : List Char) :
      Step limit (.awaiting signs groups) (.number digits) (.complete groups)
  | sign {signs : Nat} {groups : List Nat} {op : Operator} :
      op = .plus ∨ op = .minus → nestings groups + signs < limit →
        Step limit (.awaiting signs groups) (.operator op) (.awaiting (signs + 1) groups)
  | opening {signs : Nat} {groups : List Nat} : nestings groups + signs < limit →
      Step limit (.awaiting signs groups) .opening (.awaiting 0 (signs :: groups))
  | operator {groups : List Nat} (op : Operator) :
      Step limit (.complete groups) (.operator op) (.awaiting 0 groups)
  | closing {signs : Nat} {groups : List Nat} :
      Step limit (.complete (signs :: groups)) .closing (.complete groups)

/-- The tokens can follow, one after the other, and lead from the first standing to the second. -/
inductive Leads (limit : Nat) : Standing → List Token → Standing → Prop where
  | nil {standing : Standing} : Leads limit standing [] standing
  | cons {first next last : Standing} {token : Token} {rest : List Token} :
      Step limit first token next → Leads limit next rest last →
        Leads limit first (token :: rest) last

section Following

variable {limit limit' : Nat} {first middle last last' : Standing} {token : Token}
  {tokens before after : List Token}

/-- A token leads to one standing, whatever the limit. -/
theorem Step.unique (h : Step limit first token last) (h' : Step limit' first token last') :
    last = last' := by
  cases h with
  | number digits => cases h'; rfl
  | sign hop hroom => cases h'; rfl
  | opening hroom => cases h'; rfl
  | operator op => cases h'; rfl
  | closing => cases h'; rfl

theorem Leads.unique (h : Leads limit first tokens last) (h' : Leads limit' first tokens last') :
    last = last' := by
  induction h with
  | nil =>
      cases h'
      rfl
  | cons hstep _ ih =>
      cases h' with
      | cons hstep' hrest' =>
          obtain rfl := hstep.unique hstep'
          exact ih hrest'

theorem Leads.append (h : Leads limit first before middle) (h' : Leads limit middle after last) :
    Leads limit first (before ++ after) last := by
  induction h with
  | nil => exact h'
  | cons hstep _ ih => exact .cons hstep (ih h')

theorem Leads.exists_of_append (h : Leads limit first (before ++ after) last) :
    ∃ middle, Leads limit first before middle ∧ Leads limit middle after last := by
  induction before generalizing first with
  | nil => exact ⟨first, .nil, h⟩
  | cons token before ih =>
      cases h with
      | cons hstep hrest =>
          obtain ⟨middle, hbefore, hafter⟩ := ih hrest
          exact ⟨middle, .cons hstep hbefore, hafter⟩

/-- No token leads beyond the limit. -/
theorem Step.depth_le (h : Step limit first token last) (hfirst : first.depth ≤ limit) :
    last.depth ≤ limit := by
  cases h with
  | number digits => exact Nat.le_trans (Nat.le_add_right _ _) hfirst
  | sign hop hroom => exact hroom
  | opening hroom => exact hroom
  | operator op => exact hfirst
  | closing =>
      simp only [Standing.depth, nestings] at hfirst ⊢
      omega

theorem Leads.depth_le (h : Leads limit first tokens last) (hfirst : first.depth ≤ limit) :
    last.depth ≤ limit := by
  induction h with
  | nil => exact hfirst
  | cons hstep _ ih => exact ih (hstep.depth_le hfirst)

/-- A token opens or closes a group just when it is a parenthesis. -/
theorem Step.areBalanced_cons (h : Step limit first token last) (rest : List Token) :
    areBalanced first.groups.length (token :: rest) = areBalanced last.groups.length rest := by
  cases h with
  | number digits => rfl
  | sign hop hroom => rfl
  | opening hroom => rfl
  | operator op => rfl
  | closing => rfl

/-- Tokens that can follow leave as many groups open as the standing after them tells. -/
theorem Leads.areBalanced_append (h : Leads limit first tokens last) (rest : List Token) :
    areBalanced first.groups.length (tokens ++ rest) = areBalanced last.groups.length rest := by
  induction h with
  | nil => rfl
  | cons hstep _ ih => rw [List.cons_append, hstep.areBalanced_cons, ih]

end Following

/-! ## What is derived can be followed -/

mutual

/-- An operand can be followed wherever one is awaited. -/
theorem IsOperand.leads {room limit signs : Nat} {groups : List Nat} {tokens : List Token}
    {tree : Tree} (h : IsOperand room tokens tree) (hroom : nestings groups + signs + room ≤ limit) :
    Leads limit (.awaiting signs groups) tokens (.complete groups) := by
  match h with
  | .number => exact .cons (.number _) .nil
  | .plus h =>
      exact .cons (.sign (Or.inl rfl) (by omega)) (h.leads (by omega))
  | .minus h =>
      exact .cons (.sign (Or.inr rfl) (by omega)) (h.leads (by omega))
  | .group h =>
      have hinner : Leads limit (.awaiting 0 (signs :: groups)) _ (.complete (signs :: groups)) :=
        h.leads (by
          rw [nestings]
          omega)
      exact .cons (.opening (by omega)) (hinner.append (.cons .closing .nil))
termination_by structural h

/-- A product can be followed wherever an operand is awaited. -/
theorem IsProduct.leads {room limit signs : Nat} {groups : List Nat} {tokens : List Token}
    {tree : Tree} (h : IsProduct room tokens tree) (hroom : nestings groups + signs + room ≤ limit) :
    Leads limit (.awaiting signs groups) tokens (.complete groups) := by
  match h with
  | .operand h => exact h.leads hroom
  | .joined _ hleft hright =>
      exact (hleft.leads hroom).append (.cons (.operator _) (hright.leads (by omega)))
termination_by structural h

/-- A sum can be followed wherever an operand is awaited. -/
theorem IsSum.leads {room limit signs : Nat} {groups : List Nat} {tokens : List Token}
    {tree : Tree} (h : IsSum room tokens tree) (hroom : nestings groups + signs + room ≤ limit) :
    Leads limit (.awaiting signs groups) tokens (.complete groups) := by
  match h with
  | .product h => exact h.leads hroom
  | .joined _ hleft hright =>
      exact (hleft.leads hroom).append (.cons (.operator _) (hright.leads (by omega)))
termination_by structural h

end

/-! ## What can be followed can be continued -/

/-- The tokens make up an expression but for the closing parentheses of the groups: before the
opening parenthesis of the innermost one an operand is missing, and a sum stands after it. -/
def IsComplete (limit : Nat) : (groups : List Nat) → List Token → Prop
  | [], tokens => ∃ tree, IsSum limit tokens tree
  | signs :: groups, tokens =>
      ∃ outer inner tree, tokens = outer ++ .opening :: inner ∧
        IsSum (limit - nestings (signs :: groups)) inner tree ∧
          ∀ operand tree, IsOperand (limit - (nestings groups + signs)) operand tree →
            IsComplete limit groups (outer ++ operand)

/-- The tokens make up an expression but for what is still to come: an operand, if one is
awaited, and the closing parentheses of the groups. -/
def Standing.Describes (limit : Nat) (tokens : List Token) : Standing → Prop
  | .complete groups => IsComplete limit groups tokens
  | .awaiting signs groups =>
      ∀ operand tree, IsOperand (limit - (nestings groups + signs)) operand tree →
        IsComplete limit groups (tokens ++ operand)

/-- A sum goes on with any operator and an operand. -/
theorem IsSum.exists_joined {room : Nat} {left right : List Token} {l r : Tree}
    (hleft : IsSum room left l) (hright : IsOperand room right r) (op : Operator) :
    ∃ tree, IsSum room (left ++ .operator op :: right) tree := by
  have extends_product {tokens : List Token} {tree : Tree} (h : IsProduct room tokens tree)
      (hop : op = .times ∨ op = .over) :
      IsProduct room (tokens ++ .operator op :: right) (.joined op tree r) :=
    .joined hop h hright
  by_cases hop : op = .plus ∨ op = .minus
  · exact ⟨_, .joined hop hleft (.operand hright)⟩
  · -- an operator that joins operands takes the last product of the sum
    have hop := Operator.times_or_over hop
    cases hleft with
    | product h => exact ⟨_, .product (extends_product h hop)⟩
    | joined hfirst hsum hproduct =>
        rw [List.append_assoc, List.cons_append]
        exact ⟨_, .joined hfirst hsum (extends_product hproduct hop)⟩

/-- After a complete operand an operator can follow, and an operand after it. -/
theorem IsComplete.operator {limit : Nat} {groups : List Nat} {tokens right : List Token} {r : Tree}
    (h : IsComplete limit groups tokens) (op : Operator)
    (hright : IsOperand (limit - nestings groups) right r) :
    IsComplete limit groups (tokens ++ .operator op :: right) := by
  cases groups with
  | nil =>
      obtain ⟨tree, hsum⟩ := h
      exact hsum.exists_joined hright op
  | cons signs groups =>
      obtain ⟨outer, inner, tree, rfl, hsum, houter⟩ := h
      obtain ⟨tree, hjoined⟩ := hsum.exists_joined hright op
      exact ⟨outer, inner ++ .operator op :: right, tree, by simp, hjoined, houter⟩

/-- After a complete operand the innermost group can be closed. -/
theorem IsComplete.closing {limit signs : Nat} {groups : List Nat} {tokens : List Token}
    (h : IsComplete limit (signs :: groups) tokens) (hroom : nestings (signs :: groups) ≤ limit) :
    IsComplete limit groups (tokens ++ [.closing]) := by
  obtain ⟨outer, inner, tree, rfl, hsum, houter⟩ := h
  have hgroup := IsOperand.group hsum
  rw [nestings] at hroom
  rw [show limit - nestings (signs :: groups) + 1 = limit - (nestings groups + signs) by
    rw [nestings]
    omega] at hgroup
  have hcomplete := houter _ _ hgroup
  simpa using hcomplete

/-- One more token that can follow. -/
theorem Standing.Describes.step {limit : Nat} {tokens : List Token} {first last : Standing}
    {token : Token} (h : first.Describes limit tokens) (hfirst : first.depth ≤ limit)
    (hstep : Step limit first token last) : last.Describes limit (tokens ++ [token]) := by
  cases hstep with
  | number digits => exact h _ _ .number
  | @sign signs groups op hop hroom =>
      intro operand tree hoperand
      -- the sign and the operand are an operand with room for one more nesting
      have hsigned : ∃ tree, IsOperand (limit - (nestings groups + (signs + 1)) + 1)
          (.operator op :: operand) tree := by
        rcases hop with rfl | rfl
        · exact ⟨_, .plus hoperand⟩
        · exact ⟨_, .minus hoperand⟩
      obtain ⟨tree', hsigned⟩ := hsigned
      rw [show limit - (nestings groups + (signs + 1)) + 1 = limit - (nestings groups + signs) by
        omega] at hsigned
      rw [List.append_assoc]
      exact h _ _ hsigned
  | opening hroom =>
      intro operand tree hoperand
      exact ⟨tokens, operand, tree, by simp, .product (.operand hoperand), h⟩
  | operator op =>
      intro operand tree hoperand
      rw [List.append_assoc]
      exact IsComplete.operator h op hoperand
  | closing => exact IsComplete.closing h hfirst

/-- Tokens that can follow, one after the other. -/
theorem Leads.describes {limit : Nat} {earlier tokens : List Token} {first last : Standing}
    (h : Leads limit first tokens last) (hfirst : first.Describes limit earlier)
    (hdepth : first.depth ≤ limit) : last.Describes limit (earlier ++ tokens) := by
  induction h generalizing earlier with
  | nil =>
      rw [List.append_nil]
      exact hfirst
  | @cons first next last token rest hstep _ ih =>
      have hrest := ih (hfirst.step hdepth hstep) (hstep.depth_le hdepth)
      rw [List.append_assoc] at hrest
      exact hrest

/-- The groups that are open can be closed. -/
theorem IsComplete.exists_isSum {limit : Nat} {groups : List Nat} {tokens : List Token}
    (h : IsComplete limit groups tokens) (hroom : nestings groups ≤ limit) :
    ∃ more tree, IsSum limit (tokens ++ more) tree := by
  induction groups generalizing tokens with
  | nil =>
      obtain ⟨tree, hsum⟩ := h
      refine ⟨[], tree, ?_⟩
      rw [List.append_nil]
      exact hsum
  | cons signs groups ih =>
      obtain ⟨more, tree, hsum⟩ := ih (h.closing hroom) (by
        rw [nestings] at hroom
        omega)
      rw [List.append_assoc] at hsum
      exact ⟨_, tree, hsum⟩

/-- The tokens can be continued to an expression with no more signs and groups open at once than
the limit. -/
def IsBeginning (limit : Nat) (tokens : List Token) : Prop :=
  ∃ more tree, IsSum limit (tokens ++ more) tree

/-- What is described can be continued. -/
theorem Standing.Describes.isBeginning {limit : Nat} {tokens : List Token} {standing : Standing}
    (h : standing.Describes limit tokens) (hdepth : standing.depth ≤ limit) :
    IsBeginning limit tokens := by
  cases standing with
  | complete groups => exact IsComplete.exists_isSum h hdepth
  | awaiting signs groups =>
      -- a number is missing before the groups can be closed
      have hcomplete : IsComplete limit groups (tokens ++ [.number ['0']]) := h _ _ .number
      obtain ⟨more, tree, hsum⟩ := hcomplete.exists_isSum (Nat.le_trans (Nat.le_add_right _ _) hdepth)
      rw [List.append_assoc] at hsum
      exact ⟨_, tree, hsum⟩

/-- Before the first token a whole expression is to come. -/
theorem Standing.describes_start (limit : Nat) : Standing.start.Describes limit [] :=
  fun _ tree hoperand => ⟨tree, .product (.operand hoperand)⟩

/-- **Tokens are the beginning of an expression exactly when they can be followed**, one after the
other. -/
theorem isBeginning_iff {limit : Nat} {tokens : List Token} :
    IsBeginning limit tokens ↔ ∃ last, Leads limit .start tokens last := by
  constructor
  · rintro ⟨more, tree, hsum⟩
    have hwhole : Leads limit .start (tokens ++ more) (.complete []) :=
      hsum.leads (by simp [nestings])
    obtain ⟨last, htokens, -⟩ := hwhole.exists_of_append
    exact ⟨last, htokens⟩
  · rintro ⟨last, h⟩
    have hstart : Standing.start.depth ≤ limit := Nat.zero_le limit
    exact (h.describes (Standing.describes_start limit) hstart).isBeginning (h.depth_le hstart)

end Abacus.Expression
