import Abacus.Expression.Phrase
import Abacus.Proofs.Except
import Abacus.Proofs.Expression.Grammar

/-!
# Reading — the readers accept what the grammar derives

Each reader of phrases is compared with one rule of the grammar.  What it reads is derived by the
rule (`Reads`); and what the rule derives it reads, with the same tree and all that follows left
over, if nothing follows that would be joined on.  A reader for `room` nestings goes with the
grammar within `room`.
-/

namespace Abacus.Expression

/-! ## Reading on -/

/-- The lexemes do not go on with an operator that joins. -/
def Stops (joins : Operator → Bool) (lexemes : List Lexeme) : Prop :=
  ∀ op position rest, lexemes = ⟨.operator op, position⟩ :: rest → joins op = false

/-- Either nothing is joined on, or an operator that joins comes next. -/
theorem stops_or_joins (joins : Operator → Bool) (lexemes : List Lexeme) :
    Stops joins lexemes ∨
      ∃ op position rest, lexemes = ⟨.operator op, position⟩ :: rest ∧ joins op = true := by
  by_cases h : ∃ op position rest, lexemes = ⟨.operator op, position⟩ :: rest ∧ joins op = true
  · exact Or.inr h
  · refine Or.inl ?_
    intro op position rest heq
    exact Bool.eq_false_iff.mpr fun hjoins => h ⟨op, position, rest, heq, hjoins⟩

section Chain

variable {joins : Operator → Bool} {operand : Phrase}

theorem chain_zero (left : Tree) (lexemes : List Lexeme) :
    chain joins operand 0 left lexemes = .ok (left, lexemes) := by
  rw [chain]
  simp

/-- Where nothing is joined on, reading on ends. -/
theorem chain_of_stops (count : Nat) (left : Tree) {lexemes : List Lexeme}
    (h : Stops joins lexemes) : chain joins operand count left lexemes = .ok (left, lexemes) := by
  rw [chain.eq_def]
  split
  · next op position rest =>
      rw [h op position rest rfl]
      rfl
  · rfl

/-- After an operator that joins, one more operand is read and joined on. -/
theorem chain_of_joins (count : Nat) (left : Tree) {op : Operator} (position : Nat)
    (rest : List Lexeme) (h : joins op = true) :
    chain joins operand (count + 1) left (⟨.operator op, position⟩ :: rest) =
      operand rest >>= fun read => chain joins operand count (.joined op left read.1) read.2 := by
  rw [chain, if_pos h]

end Chain

/-! ## What is read is derived -/

/-- What the reader reads has the given form. -/
def Reads (phrase : Phrase) (Form : List Token → Tree → Prop) : Prop :=
  ∀ {lexemes tree rest}, phrase lexemes = .ok (tree, rest) →
    ∃ used, lexemes = used ++ rest ∧ Form (used.map Lexeme.token) tree

section Joining

variable {joins : Operator → Bool} {operand : Phrase} {Part Whole : List Token → Tree → Prop}

/-- Reading on after a phrase of the whole form gives a phrase of the whole form. -/
theorem chain_sound (reads : Reads operand Part)
    (joined : ∀ {op left right l r}, joins op = true → Whole left l → Part right r →
      Whole (left ++ .operator op :: right) (.joined op l r))
    (count : Nat) {left : List Token} {l tree : Tree} {lexemes rest : List Lexeme}
    (hleft : Whole left l) (h : chain joins operand count l lexemes = .ok (tree, rest)) :
    ∃ used, lexemes = used ++ rest ∧ Whole (left ++ used.map Lexeme.token) tree := by
  -- a chain that ends here has read nothing more
  have ends {left : List Token} {l : Tree} {lexemes : List Lexeme} (hleft : Whole left l)
      (h : (Except.ok (l, lexemes) : Except Fault _) = .ok (tree, rest)) :
      ∃ used, lexemes = used ++ rest ∧ Whole (left ++ used.map Lexeme.token) tree := by
    obtain ⟨rfl, rfl⟩ := Prod.mk.inj (Except.ok.inj h)
    exact ⟨[], rfl, by simpa using hleft⟩
  induction count generalizing left l lexemes with
  | zero =>
      rw [chain_zero] at h
      exact ends hleft h
  | succ count ih =>
      rcases stops_or_joins joins lexemes with hstops | ⟨op, position, later, rfl, hjoins⟩
      · rw [chain_of_stops _ _ hstops] at h
        exact ends hleft h
      · rw [chain_of_joins _ _ _ _ hjoins] at h
        obtain ⟨⟨r, after⟩, hr, hchain⟩ := bind_eq_ok_iff.mp h
        obtain ⟨right, rfl, hright⟩ := reads hr
        obtain ⟨more, rfl, hmore⟩ := ih (joined hjoins hleft hright) hchain
        refine ⟨⟨.operator op, position⟩ :: right ++ more, by simp, ?_⟩
        simpa using hmore

/-- Phrases of one form, joined on to each other, are read as the whole form. -/
theorem joinedBy_sound (reads : Reads operand Part)
    (one : ∀ {tokens tree}, Part tokens tree → Whole tokens tree)
    (joined : ∀ {op left right l r}, joins op = true → Whole left l → Part right r →
      Whole (left ++ .operator op :: right) (.joined op l r))
    (count : Nat) : Reads (joinedBy joins count operand) Whole := by
  intro lexemes tree rest h
  obtain ⟨⟨l, after⟩, hl, hchain⟩ := bind_eq_ok_iff.mp h
  obtain ⟨first, rfl, hfirst⟩ := reads hl
  obtain ⟨more, rfl, hmore⟩ := chain_sound reads joined count (one hfirst) hchain
  exact ⟨first ++ more, by simp, by simpa using hmore⟩

end Joining

/-- An operator joins products into a sum when it is a plus or a minus. -/
theorem Operator.isAdditive_iff {op : Operator} :
    op.isAdditive = true ↔ op = .plus ∨ op = .minus := by
  cases op <;> simp [Operator.isAdditive]

/-- An operator joins operands into a product when it is a times or an over. -/
theorem Operator.isMultiplicative_iff {op : Operator} :
    op.isMultiplicative = true ↔ op = .times ∨ op = .over := by
  cases op <;> simp [Operator.isMultiplicative]

section Within

variable {room : Nat} {operand : Phrase}

/-- A reader of operands makes a reader of products. -/
theorem product_sound (reads : Reads operand (IsOperand room)) (count : Nat) :
    Reads (product count operand) (IsProduct room) :=
  joinedBy_sound reads .operand
    (fun hjoins => .joined (Operator.isMultiplicative_iff.mp hjoins)) count

/-- A reader of operands makes a reader of sums. -/
theorem sum_sound (reads : Reads operand (IsOperand room)) (count : Nat) :
    Reads (sum count operand) (IsSum room) :=
  joinedBy_sound (product_sound reads count) .product
    (fun hjoins => .joined (Operator.isAdditive_iff.mp hjoins)) count

/-- What is read of a group is a sum and the parenthesis that closes it. -/
theorem group_sound (reads : Reads operand (IsOperand room)) (count position : Nat)
    {lexemes rest : List Lexeme} {tree : Tree}
    (h : group count operand position lexemes = .ok (tree, rest)) :
    ∃ used closing, lexemes = used ++ ⟨.closing, closing⟩ :: rest ∧
      IsSum room (used.map Lexeme.token) tree := by
  obtain ⟨⟨inner, after⟩, hinner, hclose⟩ := bind_eq_ok_iff.mp h
  obtain ⟨used, rfl, hused⟩ := sum_sound reads count hinner
  dsimp only at hclose
  split at hclose
  · next closing later =>
      obtain ⟨rfl, rfl⟩ := Prod.mk.inj (Except.ok.inj hclose)
      exact ⟨used, closing, rfl, hused⟩
  · exact nomatch hclose
  · exact nomatch hclose

/-- One operand, when the operands inside of it are read within `room`. -/
theorem operandWithin_sound (reads : Reads operand (IsOperand room)) (count : Nat) :
    Reads (operandWithin count (some operand)) (IsOperand (room + 1)) := by
  intro lexemes tree rest h
  rw [operandWithin.eq_def] at h
  split at h
  · exact nomatch h
  · next digits position later =>
      obtain ⟨rfl, rfl⟩ := Prod.mk.inj (Except.ok.inj h)
      exact ⟨[⟨.number digits, position⟩], rfl, .number⟩
  · next op position later =>
      split at h
      · next hadditive =>
          obtain ⟨⟨inner, after⟩, hinner, hsigned⟩ := bind_eq_ok_iff.mp h
          obtain ⟨rfl, rfl⟩ := Prod.mk.inj (Except.ok.inj hsigned)
          obtain ⟨used, rfl, hused⟩ := reads hinner
          refine ⟨⟨.operator op, position⟩ :: used, rfl, ?_⟩
          rcases Operator.isAdditive_iff.mp hadditive with rfl | rfl
          · exact .plus hused
          · exact .minus hused
      · exact nomatch h
  · next position later =>
      split at h
      · exact nomatch h
      · obtain ⟨used, closing, rfl, hused⟩ := group_sound reads count position h
        refine ⟨⟨.opening, position⟩ :: used ++ [⟨.closing, closing⟩], by simp, ?_⟩
        simpa using IsOperand.group hused
  · exact nomatch h

/-- An operand inside of which nothing may be opened is a number. -/
theorem operandWithin_none_sound (count : Nat) :
    Reads (operandWithin count none) (IsOperand 0) := by
  intro lexemes tree rest h
  rw [operandWithin.eq_def] at h
  split at h
  · exact nomatch h
  · next digits position later =>
      obtain ⟨rfl, rfl⟩ := Prod.mk.inj (Except.ok.inj h)
      exact ⟨[⟨.number digits, position⟩], rfl, .number⟩
  · split at h
    · exact nomatch h
    · exact nomatch h
  · split at h
    · exact nomatch h
    · exact nomatch h
  · exact nomatch h

end Within

/-- What a reader of operands reads within some room is an operand within that room. -/
theorem operand_sound (count : Nat) : ∀ room, Reads (operand count room) (IsOperand room)
  | 0 => operandWithin_none_sound count
  | room + 1 => operandWithin_sound (operand_sound count room) count

/-! ## What is derived is read -/

/-- Nothing that joins operands into a product comes next. -/
abbrev EndsProduct (rest : List Lexeme) : Prop :=
  Stops Operator.isMultiplicative rest

/-- No operator comes next. -/
def EndsSum (rest : List Lexeme) : Prop :=
  ∀ op position later, rest ≠ ⟨.operator op, position⟩ :: later

theorem EndsSum.stops {rest : List Lexeme} (h : EndsSum rest) (joins : Operator → Bool) :
    Stops joins rest :=
  fun op position later heq => absurd heq (h op position later)

/-- A plus or a minus ends a product. -/
theorem endsProduct_cons {op : Operator} (h : op = .plus ∨ op = .minus) (position : Nat)
    (rest : List Lexeme) : EndsProduct (⟨.operator op, position⟩ :: rest) := by
  intro op' position' rest' heq
  obtain ⟨⟨rfl⟩, -⟩ := List.cons.inj heq
  rcases h with rfl | rfl
  · rfl
  · rfl

/-- A closing parenthesis ends a sum. -/
theorem endsSum_closing (position : Nat) (rest : List Lexeme) :
    EndsSum (⟨.closing, position⟩ :: rest) := by
  intro op' position' rest' heq
  exact nomatch heq

/-- The lexemes of two lists of tokens with an operator between them. -/
theorem exists_of_map_eq_joined {used : List Lexeme} {left right : List Token} {op : Operator}
    (h : used.map Lexeme.token = left ++ .operator op :: right) :
    ∃ before position after, used = before ++ ⟨.operator op, position⟩ :: after ∧
      before.map Lexeme.token = left ∧ after.map Lexeme.token = right := by
  obtain ⟨before, tail, rfl, hbefore, htail⟩ := List.map_eq_append_iff.mp h
  obtain ⟨⟨token, position⟩, after, rfl, rfl, hafter⟩ := List.map_eq_cons_iff.mp htail
  exact ⟨before, position, after, rfl, hbefore, hafter⟩

/-- After a sign the operand that it belongs to is read. -/
theorem operandWithin_sign {count position : Nat} {operand : Phrase} {op : Operator}
    {lexemes rest : List Lexeme} {tree : Tree} (hop : op.isAdditive = true)
    (h : operand lexemes = .ok (tree, rest)) :
    operandWithin count (some operand) (⟨.operator op, position⟩ :: lexemes) =
      .ok (.signed (op == .minus) tree, rest) := by
  rw [operandWithin, if_pos hop]
  show operand lexemes >>= _ = _
  rw [h]
  rfl

/-- Unless it closes at once, a group is read with the reader of the operands inside. -/
theorem operandWithin_group (count : Nat) (inner : Option Phrase) (position : Nat)
    {rest : List Lexeme} (h : ∀ closing later, rest ≠ ⟨.closing, closing⟩ :: later) :
    operandWithin count inner (⟨.opening, position⟩ :: rest) =
      inner.elim (.error .tooDeep) fun phrase => group count phrase position rest := by
  rw [operandWithin.eq_def]
  dsimp only
  split
  · next closing later => exact absurd rfl (h closing later)
  · cases inner with
    | none => rfl
    | some phrase => rfl

/-- A reader that reads a group reads it after its opening parenthesis, if the group does not
close at once. -/
theorem operandWithin_opening {count position : Nat} {operand : Phrase} {rest : List Lexeme}
    (h : BeginsWell (rest.map Lexeme.token)) :
    operandWithin count (some operand) (⟨.opening, position⟩ :: rest) =
      group count operand position rest := by
  refine operandWithin_group count (some operand) position ?_
  rintro closing later rfl
  obtain ⟨first, tokens, htokens, hbegins⟩ := h
  obtain ⟨rfl, -⟩ := List.cons.inj htokens
  exact hbegins

/-- A sum that is closed is read as a group. -/
theorem group_of_sum {count position closing : Nat} {operand : Phrase} {lexemes rest : List Lexeme}
    {tree : Tree} (h : sum count operand lexemes = .ok (tree, ⟨.closing, closing⟩ :: rest)) :
    group count operand position lexemes = .ok (tree, rest) := by
  rw [group, h]
  rfl

/-- A product that nothing is joined to is read whole: reading on ends after it. -/
theorem joinedBy_of_chain {joins : Operator → Bool} {operand : Phrase} {steps count : Nat}
    (hsteps : steps ≤ count) {lexemes rest : List Lexeme} {tree : Tree}
    (h : ∀ more, joinedBy joins (steps + more) operand lexemes =
      chain joins operand more tree rest)
    (hstops : Stops joins rest) : joinedBy joins count operand lexemes = .ok (tree, rest) := by
  obtain ⟨more, rfl⟩ := Nat.exists_eq_add_of_le hsteps
  rw [h more, chain_of_stops more tree hstops]

/-- A phrase joined on: what is read up to the operator is read on with the phrase after it. -/
theorem joinedBy_step {joins : Operator → Bool} {operand : Phrase} {steps : Nat}
    {before after rest : List Lexeme} {op : Operator} {position : Nat} {l r : Tree}
    (hjoins : joins op = true)
    (hleft : ∀ more, joinedBy joins (steps + more) operand
      (before ++ ⟨.operator op, position⟩ :: after) =
        chain joins operand more l (⟨.operator op, position⟩ :: after))
    (hright : operand after = .ok (r, rest)) (more : Nat) :
    joinedBy joins (steps + 1 + more) operand (before ++ ⟨.operator op, position⟩ :: after) =
      chain joins operand more (.joined op l r) rest := by
  rw [Nat.add_right_comm, Nat.add_assoc, hleft (more + 1), chain_of_joins _ _ _ _ hjoins, hright]
  rfl

mutual

/-- An operand is read, whatever follows it. -/
theorem IsOperand.read {room : Nat} {tokens : List Token} {tree : Tree} {count : Nat}
    {used : List Lexeme} (h : IsOperand room tokens tree) (hused : used.map Lexeme.token = tokens)
    (hcount : used.length ≤ count) (rest : List Lexeme) :
    operand count room (used ++ rest) = .ok (tree, rest) := by
  match h, hused with
  | .number, hused =>
      obtain ⟨⟨token, position⟩, tail, rfl, rfl, htail⟩ := List.map_eq_cons_iff.mp hused
      obtain rfl := List.map_eq_nil_iff.mp htail
      cases room with
      | zero => rfl
      | succ room => rfl
  | .plus h, hused =>
      obtain ⟨⟨token, position⟩, inner, rfl, rfl, hinner⟩ := List.map_eq_cons_iff.mp hused
      rw [List.cons_append, operand]
      exact operandWithin_sign rfl (h.read hinner (Nat.le_of_succ_le hcount) rest)
  | .minus h, hused =>
      obtain ⟨⟨token, position⟩, inner, rfl, rfl, hinner⟩ := List.map_eq_cons_iff.mp hused
      rw [List.cons_append, operand]
      exact operandWithin_sign rfl (h.read hinner (Nat.le_of_succ_le hcount) rest)
  | .group h, hused =>
      obtain ⟨⟨token, position⟩, tail, rfl, rfl, htail⟩ := List.map_eq_cons_iff.mp hused
      obtain ⟨inner, last, rfl, hinner, hlast⟩ := List.map_eq_append_iff.mp htail
      obtain ⟨⟨token', closing⟩, tail', rfl, rfl, htail'⟩ := List.map_eq_cons_iff.mp hlast
      obtain rfl := List.map_eq_nil_iff.mp htail'
      have hinside : inner.length ≤ count := by
        simp only [List.length_cons, List.length_append] at hcount
        omega
      -- the group is read as a sum that ends at the closing parenthesis
      have hends := endsSum_closing closing rest
      obtain ⟨steps, hsteps, hon⟩ := h.read_on hinner hinside (hends.stops _)
      have hsum := joinedBy_of_chain (Nat.le_trans hsteps hinside) hon (hends.stops _)
      have hbegins : BeginsWell ((inner ++ ⟨.closing, closing⟩ :: rest).map Lexeme.token) := by
        rw [List.map_append, hinner]
        exact h.beginsWell.append _
      rw [List.cons_append, List.append_assoc, operand]
      exact (operandWithin_opening hbegins).trans (group_of_sum hsum)
termination_by structural h

/-- Reading a product and on is reading on after it. -/
theorem IsProduct.read_on {room : Nat} {tokens : List Token} {tree : Tree} {count : Nat}
    {used : List Lexeme} (h : IsProduct room tokens tree) (hused : used.map Lexeme.token = tokens)
    (hcount : used.length ≤ count) (rest : List Lexeme) :
    ∃ steps ≤ used.length, ∀ more,
      joinedBy Operator.isMultiplicative (steps + more) (operand count room) (used ++ rest) =
        chain Operator.isMultiplicative (operand count room) more tree rest := by
  match h, hused with
  | .operand h, hused =>
      -- a first operand is read before anything is joined on
      refine ⟨0, Nat.zero_le _, ?_⟩
      intro more
      rw [joinedBy, h.read hused hcount rest, Nat.zero_add]
      rfl
  | .joined hop hleft hright, hused =>
      obtain ⟨before, position, after, rfl, hbefore, hafter⟩ := exists_of_map_eq_joined hused
      simp only [List.length_append, List.length_cons] at hcount ⊢
      have hlengths : before.length ≤ count ∧ after.length ≤ count := by omega
      have hr := hright.read hafter hlengths.2 rest
      obtain ⟨steps, hsteps, hon⟩ := hleft.read_on hbefore hlengths.1
        (⟨.operator _, position⟩ :: (after ++ rest))
      refine ⟨steps + 1, by omega, ?_⟩
      intro more
      rw [List.append_assoc, List.cons_append]
      exact joinedBy_step (Operator.isMultiplicative_iff.mpr hop) hon hr more
termination_by structural h

/-- Reading a sum and on is reading on after it. -/
theorem IsSum.read_on {room : Nat} {tokens : List Token} {tree : Tree} {count : Nat}
    {used : List Lexeme} (h : IsSum room tokens tree) (hused : used.map Lexeme.token = tokens)
    (hcount : used.length ≤ count) {rest : List Lexeme} (hrest : EndsProduct rest) :
    ∃ steps ≤ used.length, ∀ more,
      joinedBy Operator.isAdditive (steps + more) (product count (operand count room))
          (used ++ rest) =
        chain Operator.isAdditive (product count (operand count room)) more tree rest := by
  match h, hused with
  | .product h, hused =>
      obtain ⟨steps, hsteps, hon⟩ := h.read_on hused hcount rest
      have hproduct := joinedBy_of_chain (Nat.le_trans hsteps hcount) hon hrest
      refine ⟨0, Nat.zero_le _, ?_⟩
      intro more
      rw [joinedBy, product, hproduct, Nat.zero_add]
      rfl
  | .joined hop hleft hright, hused =>
      obtain ⟨before, position, after, rfl, hbefore, hafter⟩ := exists_of_map_eq_joined hused
      simp only [List.length_append, List.length_cons] at hcount ⊢
      have hlengths : before.length ≤ count ∧ after.length ≤ count := by omega
      -- the last product ends where the sum does, the sum before it at the operator
      obtain ⟨steps', hsteps', hon'⟩ := hright.read_on hafter hlengths.2 rest
      have hr := joinedBy_of_chain (Nat.le_trans hsteps' hlengths.2) hon' hrest
      obtain ⟨steps, hsteps, hon⟩ := hleft.read_on hbefore hlengths.1
        (endsProduct_cons hop position (after ++ rest))
      refine ⟨steps + 1, by omega, ?_⟩
      intro more
      rw [List.append_assoc, List.cons_append]
      exact joinedBy_step (Operator.isAdditive_iff.mpr hop) hon hr more
termination_by structural h

end

/-- A sum that no operator follows is read. -/
theorem IsSum.read {room : Nat} {tokens : List Token} {tree : Tree} {count : Nat}
    {used : List Lexeme} (h : IsSum room tokens tree) (hused : used.map Lexeme.token = tokens)
    (hcount : used.length ≤ count) {rest : List Lexeme} (hrest : EndsSum rest) :
    sum count (operand count room) (used ++ rest) = .ok (tree, rest) := by
  obtain ⟨steps, hsteps, hon⟩ := h.read_on hused hcount (hrest.stops _)
  exact joinedBy_of_chain (Nat.le_trans hsteps hcount) hon (hrest.stops _)

/-- **The reader and the grammar agree.** -/
theorem read_eq_ok_iff {lexemes : List Lexeme} {tree : Tree} :
    read lexemes = .ok tree ↔ IsSum nestingLimit (lexemes.map Lexeme.token) tree := by
  constructor
  · intro h
    obtain ⟨⟨found, rest⟩, hsum, hend⟩ := bind_eq_ok_iff.mp h
    dsimp only at hend
    split at hend
    · obtain rfl := Except.ok.inj hend
      obtain ⟨used, hused, hderived⟩ := sum_sound (operand_sound _ _) _ hsum
      rw [hused, List.append_nil]
      exact hderived
    · exact nomatch hend
  · intro h
    have hends : EndsSum [] := fun op position later heq => nomatch heq
    have hsum := h.read rfl (Nat.le_refl _) hends
    rw [List.append_nil] at hsum
    rw [read, hsum]
    rfl

end Abacus.Expression
