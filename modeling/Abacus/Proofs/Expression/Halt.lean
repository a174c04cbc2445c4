import Abacus.Proofs.Expression.Beginning
import Abacus.Proofs.Expression.Meaning

/-!
# Halt — where a reading fails

A reading that fails has followed the tokens up to some place, and there it stands before a token
that cannot follow, or at the end.  Which fault is reported depends on the standing there and on
the token that comes next (`Halts`).  Each reader is shown to fail in this way only, from the
readers inside of it: what they have read can be followed (`Halts.after`).
-/

namespace Abacus.Expression

/-! ## What is left over -/

section Leaving

variable {joins : Operator → Bool} {operand : Phrase} {Part : List Token → Tree → Prop}
  {Left : List Lexeme → Prop} {bound : Nat}

/-- With enough operands allowed, reading on ends where nothing joins, and what is left over is
what the last operand left. -/
theorem chain_leaves (reads : Reads operand Part)
    (leaves : ∀ {lexemes tree rest}, lexemes.length ≤ bound →
      operand lexemes = .ok (tree, rest) → Left rest)
    {count : Nat} (hcount : count ≤ bound) {left tree : Tree} {lexemes rest : List Lexeme}
    (hlength : lexemes.length ≤ count) (hleft : Left lexemes)
    (h : chain joins operand count left lexemes = .ok (tree, rest)) :
    Left rest ∧ Stops joins rest := by
  induction count generalizing left lexemes with
  | zero =>
      obtain rfl := List.eq_nil_of_length_eq_zero (Nat.le_zero.mp hlength)
      rw [chain_zero] at h
      obtain ⟨rfl, rfl⟩ := Prod.mk.inj (Except.ok.inj h)
      exact ⟨hleft, fun op position later heq => nomatch heq⟩
  | succ count ih =>
      rcases stops_or_joins joins lexemes with hstops | ⟨op, position, later, rfl, hjoins⟩
      · rw [chain_of_stops _ _ hstops] at h
        obtain ⟨rfl, rfl⟩ := Prod.mk.inj (Except.ok.inj h)
        exact ⟨hleft, hstops⟩
      · rw [chain_of_joins _ _ _ _ hjoins] at h
        obtain ⟨⟨right, after⟩, hright, hchain⟩ := bind_eq_ok_iff.mp h
        obtain ⟨used, rfl, -⟩ := reads hright
        simp only [List.length_cons, List.length_append] at hlength
        refine ih (by omega) (by omega) (leaves ?_ hright) hchain
        simp only [List.length_append]
        omega

/-- A phrase that is joined on leaves nothing that would be joined on. -/
theorem joinedBy_leaves (reads : Reads operand Part)
    (leaves : ∀ {lexemes tree rest}, lexemes.length ≤ bound →
      operand lexemes = .ok (tree, rest) → Left rest)
    {tree : Tree} {lexemes rest : List Lexeme} (hlength : lexemes.length ≤ bound)
    (h : joinedBy joins bound operand lexemes = .ok (tree, rest)) :
    Left rest ∧ Stops joins rest := by
  obtain ⟨⟨left, after⟩, hfirst, hchain⟩ := bind_eq_ok_iff.mp h
  obtain ⟨used, rfl, -⟩ := reads hfirst
  refine chain_leaves reads leaves (Nat.le_refl _) ?_ (leaves hlength hfirst) hchain
  simp only [List.length_append] at hlength
  omega

end Leaving

/-- **A sum leaves no operator over**, if as many operands are allowed as there are lexemes. -/
theorem sum_leaves {room bound : Nat} {operand : Phrase} (reads : Reads operand (IsOperand room))
    {tree : Tree} {lexemes rest : List Lexeme} (hlength : lexemes.length ≤ bound)
    (h : sum bound operand lexemes = .ok (tree, rest)) : EndsSum rest := by
  have hproduct {lexemes : List Lexeme} {tree : Tree} {rest : List Lexeme}
      (hlength : lexemes.length ≤ bound) (h : product bound operand lexemes = .ok (tree, rest)) :
      EndsProduct rest := by
    have hstops : True ∧ Stops Operator.isMultiplicative rest :=
      joinedBy_leaves reads (fun _ _ => trivial) hlength h
    exact hstops.2
  obtain ⟨htimes, hplus⟩ := joinedBy_leaves (product_sound reads bound) hproduct hlength h
  intro op position later heq
  -- every operator joins operands or products
  have hnone := And.intro (htimes op position later heq) (hplus op position later heq)
  cases op <;> simp [Operator.isMultiplicative, Operator.isAdditive] at hnone

/-! ## How a reading fails -/

/-- A reading that began at the given standing fails with the fault: it has followed the tokens up
to a place where none of them can follow, or where there is none. -/
inductive Halts (limit : Nat) (first : Standing) : List Lexeme → Fault → Prop where
  /-- An operand is awaited, and what comes does not begin one. -/
  | unexpected {before after : List Lexeme} {lexeme : Lexeme} {signs : Nat} {groups : List Nat} :
      Leads limit first (before.map Lexeme.token) (.awaiting signs groups) →
        ¬ lexeme.token.begins →
          Halts limit first (before ++ lexeme :: after)
            (.unexpected lexeme.token.text lexeme.position)
  /-- The expression is complete, and what comes does not join on. -/
  | leftOver {before after : List Lexeme} {lexeme : Lexeme} :
      Leads limit first (before.map Lexeme.token) (.complete []) →
        (∀ op, lexeme.token ≠ .operator op) →
          Halts limit first (before ++ lexeme :: after)
            (.unexpected lexeme.token.text lexeme.position)
  /-- A group is to be closed, and what comes neither joins on nor closes it. -/
  | expectedClosing {before after : List Lexeme} {lexeme : Lexeme} {signs : Nat}
      {groups : List Nat} :
      Leads limit first (before.map Lexeme.token) (.complete (signs :: groups)) →
        (∀ op, lexeme.token ≠ .operator op) → lexeme.token ≠ .closing →
          Halts limit first (before ++ lexeme :: after)
            (.expectedClosing lexeme.token.text lexeme.position)
  /-- An operand is awaited, and a group comes that closes at once. -/
  | emptyGroup {before after : List Lexeme} {position closing : Nat} {signs : Nat}
      {groups : List Nat} :
      Leads limit first (before.map Lexeme.token) (.awaiting signs groups) →
        Halts limit first (before ++ ⟨.opening, position⟩ :: ⟨.closing, closing⟩ :: after)
          (.emptyGroup position)
  /-- An operand is awaited, and nothing comes. -/
  | unexpectedEnd {lexemes : List Lexeme} {signs : Nat} {groups : List Nat} :
      Leads limit first (lexemes.map Lexeme.token) (.awaiting signs groups) →
        Halts limit first lexemes .unexpectedEnd
  /-- A group is to be closed, and nothing comes. -/
  | unclosed {lexemes : List Lexeme} {position signs : Nat} {groups : List Nat} :
      Leads limit first (lexemes.map Lexeme.token) (.complete (signs :: groups)) →
        Halts limit first lexemes (.unclosed position)
  /-- As many signs and groups are open as may be, and one more comes. -/
  | tooDeep {before after : List Lexeme} {lexeme : Lexeme} {signs : Nat} {groups : List Nat} :
      Leads limit first (before.map Lexeme.token) (.awaiting signs groups) →
        nestings groups + signs = limit →
          lexeme.token = .opening ∨ lexeme.token = .operator .plus ∨
              lexeme.token = .operator .minus →
            Halts limit first (before ++ lexeme :: after) .tooDeep

/-- Where the phrase fails, the reading halts. -/
def HaltsFrom (limit bound : Nat) (first : Standing) (phrase : Phrase) : Prop :=
  ∀ lexemes fault, lexemes.length ≤ bound → phrase lexemes = .error fault →
    Halts limit first lexemes fault

/-- What has been followed before a reading can be put before it. -/
theorem Halts.after {limit : Nat} {first middle : Standing} {used lexemes : List Lexeme}
    {fault : Fault} (h : Halts limit middle lexemes fault)
    (hused : Leads limit first (used.map Lexeme.token) middle) :
    Halts limit first (used ++ lexemes) fault := by
  have follow {before : List Lexeme} {last : Standing}
      (h : Leads limit middle (before.map Lexeme.token) last) :
      Leads limit first ((used ++ before).map Lexeme.token) last := by
    rw [List.map_append]
    exact hused.append h
  cases h with
  | unexpected hleads hbegins =>
      rw [← List.append_assoc]
      exact .unexpected (follow hleads) hbegins
  | leftOver hleads hop =>
      rw [← List.append_assoc]
      exact .leftOver (follow hleads) hop
  | expectedClosing hleads hop hclosing =>
      rw [← List.append_assoc]
      exact .expectedClosing (follow hleads) hop hclosing
  | emptyGroup hleads =>
      rw [← List.append_assoc]
      exact .emptyGroup (follow hleads)
  | unexpectedEnd hleads => exact .unexpectedEnd (follow hleads)
  | unclosed hleads => exact .unclosed (follow hleads)
  | tooDeep hleads hdepth hopens =>
      rw [← List.append_assoc]
      exact .tooDeep (follow hleads) hdepth hopens

section Nesting

variable {limit signs : Nat} {groups : List Nat} {lexemes : List Lexeme} {fault : Fault}

/-- A sign is put before a reading of its operand. -/
theorem Halts.after_sign {op : Operator} (h : Halts limit (.awaiting (signs + 1) groups) lexemes fault)
    (hop : op = .plus ∨ op = .minus) (hroom : nestings groups + signs < limit) (position : Nat) :
    Halts limit (.awaiting signs groups) (⟨.operator op, position⟩ :: lexemes) fault := by
  have hsign : Leads limit (.awaiting signs groups)
      ([(⟨.operator op, position⟩ : Lexeme)].map Lexeme.token) (.awaiting (signs + 1) groups) :=
    .cons (.sign hop hroom) .nil
  exact h.after hsign

/-- An opening parenthesis is put before a reading of its group. -/
theorem Halts.after_opening (h : Halts limit (.awaiting 0 (signs :: groups)) lexemes fault)
    (hroom : nestings groups + signs < limit) (position : Nat) :
    Halts limit (.awaiting signs groups) (⟨.opening, position⟩ :: lexemes) fault := by
  have hopening : Leads limit (.awaiting signs groups)
      ([(⟨.opening, position⟩ : Lexeme)].map Lexeme.token) (.awaiting 0 (signs :: groups)) :=
    .cons (.opening hroom) .nil
  exact h.after hopening

end Nesting

/-! ## The readers -/

section Joining

variable {joins : Operator → Bool} {operand : Phrase} {Part : List Token → Tree → Prop}
  {limit bound : Nat} {groups : List Nat}

/-- Reading on fails within an operand that is joined on. -/
theorem chain_halts (reads : Reads operand Part)
    (leads : ∀ {tokens tree}, Part tokens tree →
      Leads limit (.awaiting 0 groups) tokens (.complete groups))
    (halts : HaltsFrom limit bound (.awaiting 0 groups) operand) {count : Nat} {left : Tree}
    {lexemes : List Lexeme} {fault : Fault} (hlength : lexemes.length ≤ bound)
    (h : chain joins operand count left lexemes = .error fault) :
    Halts limit (.complete groups) lexemes fault := by
  induction count generalizing left lexemes with
  | zero =>
      rw [chain_zero] at h
      exact nomatch h
  | succ count ih =>
      rcases stops_or_joins joins lexemes with hstops | ⟨op, position, later, rfl, hjoins⟩
      · rw [chain_of_stops _ _ hstops] at h
        exact nomatch h
      · have hop : Leads limit (.complete groups)
            ([(⟨.operator op, position⟩ : Lexeme)].map Lexeme.token) (.awaiting 0 groups) :=
          .cons (.operator op) .nil
        have hlater : later.length ≤ bound := Nat.le_of_succ_le hlength
        rw [chain_of_joins _ _ _ _ hjoins] at h
        rcases bind_eq_error_iff.mp h with hoperand | ⟨⟨right, rest⟩, hright, hchain⟩
        · exact (halts _ _ hlater hoperand).after hop
        · -- the operand has been read, and reading on after it fails
          obtain ⟨used, rfl, hused⟩ := reads hright
          have hrest : rest.length ≤ bound := by
            rw [List.length_append] at hlater
            omega
          exact ((ih hrest hchain).after (leads hused)).after hop

/-- Phrases that are joined on fail in the first of them or in a later one. -/
theorem joinedBy_halts (reads : Reads operand Part)
    (leads : ∀ {tokens tree}, Part tokens tree →
      Leads limit (.awaiting 0 groups) tokens (.complete groups))
    (halts : HaltsFrom limit bound (.awaiting 0 groups) operand) (count : Nat) :
    HaltsFrom limit bound (.awaiting 0 groups) (joinedBy joins count operand) := by
  intro lexemes fault hlength h
  rcases bind_eq_error_iff.mp h with hfirst | ⟨⟨left, rest⟩, hleft, hchain⟩
  · exact halts _ _ hlength hfirst
  · obtain ⟨used, rfl, hused⟩ := reads hleft
    have hrest : rest.length ≤ bound := by
      rw [List.length_append] at hlength
      omega
    exact (chain_halts reads leads halts hrest hchain).after (leads hused)

end Joining

section Within

variable {room limit count : Nat} {operand : Phrase} {groups : List Nat}

/-- A sum fails within one of its operands. -/
theorem sum_halts (reads : Reads operand (IsOperand room)) (hroom : nestings groups + room ≤ limit)
    (halts : HaltsFrom limit count (.awaiting 0 groups) operand) :
    HaltsFrom limit count (.awaiting 0 groups) (sum count operand) :=
  joinedBy_halts (product_sound reads count) (fun h => h.leads hroom)
    (joinedBy_halts reads (fun h => h.leads hroom) halts count) count

/-- A group fails within its sum, or where it ought to be closed. -/
theorem group_halts (reads : Reads operand (IsOperand room)) {signs : Nat}
    (hroom : nestings (signs :: groups) + room ≤ limit)
    (halts : HaltsFrom limit count (.awaiting 0 (signs :: groups)) operand) (position : Nat) :
    HaltsFrom limit count (.awaiting 0 (signs :: groups)) (group count operand position) := by
  intro lexemes fault hlength h
  rcases bind_eq_error_iff.mp h with hsum | ⟨⟨inner, rest⟩, hinner, hclose⟩
  · exact sum_halts reads hroom halts _ _ hlength hsum
  · have hends := sum_leaves reads hlength hinner
    obtain ⟨used, rfl, hused⟩ := sum_sound reads count hinner
    have hleads : Leads limit (.awaiting 0 (signs :: groups)) (used.map Lexeme.token)
        (.complete (signs :: groups)) := hused.leads hroom
    dsimp only at hclose
    split at hclose
    · exact nomatch hclose
    · next found later hclosing =>
        obtain rfl := Except.error.inj hclose
        refine .expectedClosing hleads ?_ ?_
        · intro op hop
          exact hends op found.position later (by rw [← hop])
        · intro htoken
          exact hclosing found.position (by rw [← htoken])
    · obtain rfl := Except.error.inj hclose
      rw [List.append_nil]
      exact .unclosed hleads

/-- An operand fails where it begins, or within the operand or the group that it consists of. -/
theorem operandWithin_halts {inner : Option Phrase} {signs : Nat}
    (full : inner = none → nestings groups + signs = limit)
    (within : ∀ operand, inner = some operand → ∃ room, nestings groups + signs + (room + 1) = limit ∧
      Reads operand (IsOperand room) ∧ ∀ {signs groups}, nestings groups + signs + room = limit →
        HaltsFrom limit count (.awaiting signs groups) operand) :
    HaltsFrom limit count (.awaiting signs groups) (operandWithin count inner) := by
  intro lexemes fault hlength h
  have here : Leads limit (.awaiting signs groups) ([].map Lexeme.token) (.awaiting signs groups) :=
    .nil
  rw [operandWithin.eq_def] at h
  -- by what comes: nothing, a number, an operator, an opening parenthesis or a closing one
  split at h
  · obtain rfl := Except.error.inj h
    exact .unexpectedEnd here
  · cases h
  · next op position rest =>
      split at h
      · next hadditive =>
          have hsign := Operator.isAdditive_iff.mp hadditive
          split at h
          · obtain rfl := Except.error.inj h
            exact .tooDeep here (full rfl) (Or.inr (by simpa using hsign))
          · next operand =>
              obtain ⟨room, hroom, -, halts⟩ := within operand rfl
              rcases bind_eq_error_iff.mp h with hoperand | ⟨read, -, hread⟩
              · have hinside : nestings groups + (signs + 1) + room = limit := by omega
                exact (halts hinside _ _ (Nat.le_of_succ_le hlength) hoperand).after_sign hsign
                  (by omega) position
              · cases hread
      · next hadditive =>
          obtain rfl := Except.error.inj h
          refine .unexpected here ?_
          rcases Operator.times_or_over (mt Operator.isAdditive_iff.mpr hadditive) with rfl | rfl
          · exact id
          · exact id
  · next position rest =>
      split at h
      · obtain rfl := Except.error.inj h
        exact .emptyGroup here
      · split at h
        · obtain rfl := Except.error.inj h
          exact .tooDeep here (full rfl) (Or.inl rfl)
        · next operand =>
            obtain ⟨room, hroom, reads, halts⟩ := within operand rfl
            have hinside : nestings (signs :: groups) + room = limit := by
              rw [nestings]
              omega
            have hrest := group_halts reads (Nat.le_of_eq hinside) (halts hinside) position
              _ _ (Nat.le_of_succ_le hlength) h
            exact hrest.after_opening (by omega) position
  · obtain rfl := Except.error.inj h
    exact .unexpected here id

end Within

/-- Whatever is open, an operand is read with the room that is left. -/
theorem operand_halts {limit : Nat} (count room : Nat) {signs : Nat} {groups : List Nat}
    (hroom : nestings groups + signs + room = limit) :
    HaltsFrom limit count (.awaiting signs groups) (operand count room) := by
  induction room generalizing signs groups with
  | zero => exact operandWithin_halts (fun _ => hroom) (fun operand h => nomatch h)
  | succ room ih =>
      show HaltsFrom limit count _ (operandWithin count (some (operand count room)))
      refine operandWithin_halts (fun h => nomatch h) ?_
      intro operand h
      obtain rfl := Option.some.inj h
      exact ⟨room, hroom, operand_sound count room, fun hinner => ih hinner⟩

/-- **A reading that fails has followed the tokens as far as it can.** -/
theorem halts_of_read {lexemes : List Lexeme} {fault : Fault} (h : read lexemes = .error fault) :
    Halts nestingLimit .start lexemes fault := by
  have hroom : nestings [] + nestingLimit = nestingLimit := Nat.zero_add _
  have reads : Reads (operand lexemes.length nestingLimit) (IsOperand nestingLimit) :=
    operand_sound lexemes.length nestingLimit
  rcases bind_eq_error_iff.mp h with hsum | ⟨⟨tree, rest⟩, hread, hend⟩
  · exact sum_halts reads (Nat.le_of_eq hroom) (operand_halts _ _ hroom) _ _ (Nat.le_refl _) hsum
  · have hends := sum_leaves reads (Nat.le_refl _) hread
    obtain ⟨used, hused, hsum⟩ := sum_sound reads _ hread
    dsimp only at hend
    split at hend
    · exact nomatch hend
    · next found later =>
        obtain rfl := Except.error.inj hend
        rw [hused]
        refine .leftOver (hsum.leads (Nat.le_of_eq hroom)) ?_
        intro op hop
        exact hends op found.position later (by rw [← hop])

/-- A text whose tokens are found fails in the reader if evaluation names one of the reader's
faults. -/
theorem halts_of_evaluate {text : String} {found : List Lexeme} {fault : Fault}
    (hcut : lexemes (marks text) = .ok found) (h : evaluate text = .error fault)
    (hempty : fault ≠ .empty) (hforeign : fault ≠ .foreign) (hfinite : fault ≠ .notFinite) :
    Halts nestingLimit .start found fault := by
  cases evaluate_eq_error_iff.mp h with
  | empty => exact absurd rfl hempty
  | foreign => exact absurd rfl hforeign
  | uncut _ _ huncut => exact nomatch hcut.symm.trans huncut
  | unread _ _ hfound hread =>
      obtain rfl := Except.ok.inj (hcut.symm.trans hfound)
      exact halts_of_read hread
  | notFinite => exact absurd rfl hfinite

end Abacus.Expression
