import Abacus.Proofs.Expression.Balance

/-!
# Matched — balance said of the beginnings of a list

The check of a text and the count over tokens walk from the left and keep how many parentheses are
open.  What they find out can be said without a walk: no beginning closes more than it opens, and
the whole closes all that it opens (`IsMatched`).  Both walks take the same three steps, so each is
compared with `IsMatched` by the same three lemmas (`isBalanced_iff`, `areBalanced_iff`).
-/

namespace Abacus.Expression

/-- With `depth` open at the start, no beginning of the list closes more than has been opened, and
the whole list leaves nothing open. -/
structure IsMatched {α : Type} (opens closes : α → Bool) (depth : ℕ) (items : List α) : Prop where
  notBelow : ∀ start, start <+: items → start.countP closes ≤ depth + start.countP opens
  closed : items.countP closes = depth + items.countP opens

section Steps

variable {α : Type} {opens closes : α → Bool} {depth : ℕ} {item : α} {rest : List α}

theorem isMatched_nil_iff : IsMatched opens closes depth [] ↔ depth = 0 := by
  constructor
  · intro h
    exact h.closed.symm
  · rintro rfl
    refine ⟨fun start hstart => ?_, rfl⟩
    rw [List.prefix_nil.mp hstart]
    exact Nat.le_refl 0

/-- The beginnings of a list with a first item are the empty one and those of the rest after it. -/
theorem forall_prefix_cons_iff {P : List α → Prop} :
    (∀ start, start <+: item :: rest → P start) ↔
      P [] ∧ ∀ start, start <+: rest → P (item :: start) := by
  constructor
  · intro h
    exact ⟨h [] List.nil_prefix, fun start hstart => h _ (List.cons_prefix_cons.mpr ⟨rfl, hstart⟩)⟩
  · rintro ⟨hnil, hcons⟩ start hstart
    rcases List.prefix_cons_iff.mp hstart with rfl | ⟨more, rfl, hmore⟩
    · exact hnil
    · exact hcons more hmore

/-- An item that opens leaves one more to be closed. -/
theorem isMatched_cons_of_opens (hopens : opens item = true) (hcloses : closes item = false) :
    IsMatched opens closes depth (item :: rest) ↔ IsMatched opens closes (depth + 1) rest := by
  have hopened (l : List α) : (item :: l).countP opens = l.countP opens + 1 :=
    List.countP_cons_of_pos hopens
  have hclosed (l : List α) : (item :: l).countP closes = l.countP closes :=
    List.countP_cons_of_neg (by simp [hcloses])
  constructor
  · rintro ⟨hbelow, hall⟩
    obtain ⟨-, hbelow⟩ := forall_prefix_cons_iff.mp hbelow
    rw [hopened, hclosed] at hall
    refine ⟨fun start hstart => ?_, by omega⟩
    have := hbelow start hstart
    rw [hopened, hclosed] at this
    omega
  · rintro ⟨hbelow, hall⟩
    refine ⟨forall_prefix_cons_iff.mpr ⟨Nat.zero_le _, fun start hstart => ?_⟩, ?_⟩
    · have := hbelow start hstart
      rw [hopened, hclosed]
      omega
    · rw [hopened, hclosed]
      omega

/-- An item that closes needs one that is open, and leaves the others. -/
theorem isMatched_cons_of_closes (hopens : opens item = false) (hcloses : closes item = true) :
    IsMatched opens closes depth (item :: rest) ↔
      depth ≠ 0 ∧ IsMatched opens closes (depth - 1) rest := by
  have hopened (l : List α) : (item :: l).countP opens = l.countP opens :=
    List.countP_cons_of_neg (by simp [hopens])
  have hclosed (l : List α) : (item :: l).countP closes = l.countP closes + 1 :=
    List.countP_cons_of_pos hcloses
  constructor
  · rintro ⟨hbelow, hall⟩
    obtain ⟨-, hbelow⟩ := forall_prefix_cons_iff.mp hbelow
    -- the item alone is a beginning that closes one
    have hfirst := hbelow [] List.nil_prefix
    rw [hopened, hclosed, List.countP_nil, List.countP_nil] at hfirst
    rw [hopened, hclosed] at hall
    refine ⟨by omega, fun start hstart => ?_, by omega⟩
    have := hbelow start hstart
    rw [hopened, hclosed] at this
    omega
  · rintro ⟨hdepth, hbelow, hall⟩
    refine ⟨forall_prefix_cons_iff.mpr ⟨Nat.zero_le _, fun start hstart => ?_⟩, ?_⟩
    · have := hbelow start hstart
      rw [hopened, hclosed]
      omega
    · rw [hopened, hclosed]
      omega

/-- Any other item leaves things as they are. -/
theorem isMatched_cons_of_neither (hopens : opens item = false) (hcloses : closes item = false) :
    IsMatched opens closes depth (item :: rest) ↔ IsMatched opens closes depth rest := by
  have hopened (l : List α) : (item :: l).countP opens = l.countP opens :=
    List.countP_cons_of_neg (by simp [hopens])
  have hclosed (l : List α) : (item :: l).countP closes = l.countP closes :=
    List.countP_cons_of_neg (by simp [hcloses])
  constructor
  · rintro ⟨hbelow, hall⟩
    obtain ⟨-, hbelow⟩ := forall_prefix_cons_iff.mp hbelow
    simp only [hopened, hclosed] at hbelow hall
    exact ⟨hbelow, hall⟩
  · rintro ⟨hbelow, hall⟩
    refine ⟨forall_prefix_cons_iff.mpr ⟨Nat.zero_le _, ?_⟩, ?_⟩
    · simpa only [hopened, hclosed] using hbelow
    · simpa only [hopened, hclosed] using hall

end Steps

/-! ## The two walks -/

/-- The characters of a text are balanced when its parentheses match. -/
theorem isBalanced_iff {depth : ℕ} {text : List Char} :
    isBalanced depth text = true ↔ IsMatched (· == '(') (· == ')') depth text := by
  induction text generalizing depth with
  | nil => rw [isMatched_nil_iff, isBalanced, beq_iff_eq]
  | cons c rest ih =>
      by_cases hopening : c = '('
      · subst hopening
        rw [isMatched_cons_of_opens rfl rfl, ← ih]
        exact Iff.rfl
      by_cases hclosing : c = ')'
      · subst hclosing
        rw [isMatched_cons_of_closes rfl rfl, ← ih, ← bne_iff_ne, ← Bool.and_eq_true]
        exact Iff.rfl
      have hother : IsMatched (· == '(') (· == ')') depth (c :: rest) ↔
          IsMatched (· == '(') (· == ')') depth rest :=
        isMatched_cons_of_neither (beq_false_of_ne hopening) (beq_false_of_ne hclosing)
      rw [isBalanced_cons hopening hclosing, ih, hother]

/-- The token opens a group. -/
def Token.opens (token : Token) : Bool :=
  token == .opening

/-- The token closes a group. -/
def Token.closes (token : Token) : Bool :=
  token == .closing

/-- Tokens are balanced when their parentheses match. -/
theorem areBalanced_iff {depth : ℕ} {tokens : List Token} :
    areBalanced depth tokens = true ↔ IsMatched Token.opens Token.closes depth tokens := by
  induction tokens generalizing depth with
  | nil => rw [isMatched_nil_iff, areBalanced, beq_iff_eq]
  | cons token rest ih =>
      cases token with
      | opening => rw [isMatched_cons_of_opens rfl rfl, ← ih, areBalanced]
      | closing =>
          rw [isMatched_cons_of_closes rfl rfl, ← ih, areBalanced, Bool.and_eq_true, bne_iff_ne]
      | number digits => rw [isMatched_cons_of_neither rfl rfl, ← ih, areBalanced]
      | operator op => rw [isMatched_cons_of_neither rfl rfl, ← ih, areBalanced]

end Abacus.Expression
