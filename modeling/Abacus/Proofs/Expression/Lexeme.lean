import Abacus.Proofs.Expression.Checked
import Abacus.Proofs.Expression.Place

/-!
# Lexemes — the cut loses nothing and points at the first flaw

`IsCut` says which tokens a text consists of.  Here the same is said of marks and lexemes, so that
positions take part (`IsLexed`): a lexeme has the position of its first character.  What cannot be
cut has a flaw, an operator that is written twice or a stretch of digits and points that is no number
(`IsFlaw`), and the fault that is reported is the one of the first flaw (`lexemes_eq_iff`).  For that
a token that has been cut off must hide no flaw: the flaws of the marks are those of the marks after
it (`flawAt_cons_iff`, `flawAt_append_iff`).
-/

namespace Abacus.Expression

/-! ## The lexemes of marks -/

/-- The marks consist of the lexemes: a longest stretch of digits and points is one number, every
operator and every parenthesis a lexeme of its own, each at the position of its first character. -/
inductive IsLexed : List Mark → List Lexeme → Prop where
  | nil : IsLexed [] []
  | number {first : Mark} {more rest : List Mark} {later : List Lexeme} :
      (∀ mark ∈ first :: more, isNumeric mark.char = true) → EndsRun (rest.map Mark.char) →
        IsLexed rest later →
          IsLexed (first :: more ++ rest)
            (⟨.number ((first :: more).map Mark.char), first.position⟩ :: later)
  | operator {position : Nat} {rest : List Mark} {later : List Lexeme} (op : Operator) :
      IsLexed rest later → IsLexed (⟨op.symbol, position⟩ :: rest) (⟨.operator op, position⟩ :: later)
  | opening {position : Nat} {rest : List Mark} {later : List Lexeme} :
      IsLexed rest later → IsLexed (⟨'(', position⟩ :: rest) (⟨.opening, position⟩ :: later)
  | closing {position : Nat} {rest : List Mark} {later : List Lexeme} :
      IsLexed rest later → IsLexed (⟨')', position⟩ :: rest) (⟨.closing, position⟩ :: later)

section Lexed

variable {marks : List Mark} {found : List Lexeme}

/-- The spellings of the lexemes, one after the other, are the characters. -/
theorem IsLexed.spelled_eq (h : IsLexed marks found) :
    spelled (found.map Lexeme.token) = marks.map Mark.char := by
  have spelled_cons (token : Token) (tokens : List Token) :
      spelled (token :: tokens) = token.spelling ++ spelled tokens := List.flatMap_cons
  induction h with
  | nil => rfl
  | number _ _ _ ih => rw [List.map_cons, spelled_cons, ih, List.map_append, Token.spelling]
  | operator op _ ih => rw [List.map_cons, spelled_cons, ih, Token.spelling]; rfl
  | opening _ ih => rw [List.map_cons, spelled_cons, ih, Token.spelling]; rfl
  | closing _ ih => rw [List.map_cons, spelled_cons, ih, Token.spelling]; rfl

/-- The positions of the lexemes are positions of marks. -/
theorem IsLexed.exists_position (h : IsLexed marks found) {lexeme : Lexeme} (hmem : lexeme ∈ found) :
    ∃ mark ∈ marks, mark.position = lexeme.position := by
  have step {mark : Mark} {before rest : List Mark} {head : Lexeme} {later : List Lexeme}
      (hmark : mark ∈ before) (hposition : mark.position = head.position)
      (ih : lexeme ∈ later → ∃ mark ∈ rest, mark.position = lexeme.position)
      (hmem : lexeme ∈ head :: later) :
      ∃ mark ∈ before ++ rest, mark.position = lexeme.position := by
    rcases List.mem_cons.mp hmem with rfl | hlater
    · exact ⟨mark, List.mem_append_left _ hmark, hposition⟩
    · obtain ⟨other, hother, heq⟩ := ih hlater
      exact ⟨other, List.mem_append_right _ hother, heq⟩
  induction h with
  | nil => cases hmem
  | number _ _ _ ih => exact step (List.mem_cons_self ..) rfl ih hmem
  | operator op _ ih => exact step (List.mem_singleton_self _) rfl ih hmem
  | opening _ ih => exact step (List.mem_singleton_self _) rfl ih hmem
  | closing _ ih => exact step (List.mem_singleton_self _) rfl ih hmem

/-- Where the positions of the marks increase, so do those of the lexemes. -/
theorem IsLexed.pairwise_position (h : IsLexed marks found)
    (hmarks : marks.Pairwise fun mark next => mark.position < next.position) :
    found.Pairwise fun lexeme next => lexeme.position < next.position := by
  -- a lexeme stands before the marks that are left over, and so before all later lexemes
  have step {mark : Mark} {before rest : List Mark} {head : Lexeme} {later : List Lexeme}
      (hmark : mark ∈ before) (hposition : mark.position = head.position) (hrest : IsLexed rest later)
      (ih : rest.Pairwise (fun mark next => mark.position < next.position) →
        later.Pairwise fun lexeme next => lexeme.position < next.position)
      (hall : (before ++ rest).Pairwise fun mark next => mark.position < next.position) :
      (head :: later).Pairwise fun lexeme next => lexeme.position < next.position := by
    obtain ⟨-, hpairs, hcross⟩ := List.pairwise_append.mp hall
    refine List.pairwise_cons.mpr ⟨fun lexeme hlexeme => ?_, ih hpairs⟩
    obtain ⟨next, hnext, heq⟩ := hrest.exists_position hlexeme
    rw [← hposition, ← heq]
    exact hcross mark hmark next hnext
  induction h with
  | nil => exact .nil
  | number _ _ hrest ih => exact step (List.mem_cons_self ..) rfl hrest ih hmarks
  | operator op hrest ih => exact step (List.mem_singleton_self _) rfl hrest ih hmarks
  | opening hrest ih => exact step (List.mem_singleton_self _) rfl hrest ih hmarks
  | closing hrest ih => exact step (List.mem_singleton_self _) rfl hrest ih hmarks

/-- Marks that consist of lexemes of which the first is a number begin with a digit or a point. -/
theorem IsLexed.isNumeric_head {digits : List Char} {position : Nat} {later : List Lexeme}
    (h : IsLexed marks (⟨.number digits, position⟩ :: later)) :
    ∃ c ∈ (marks.map Mark.char).head?, isNumeric c = true := by
  cases h with
  | @number first _ _ _ hnumeric _ _ => exact ⟨first.char, rfl, hnumeric first (List.mem_cons_self ..)⟩

/-- No two numbers are next to each other. -/
theorem IsLexed.not_adjacent (h : IsLexed marks found) (earlier : List Lexeme)
    (digits digits' : List Char) (position position' : Nat) (later : List Lexeme) :
    found ≠ earlier ++ ⟨.number digits, position⟩ :: ⟨.number digits', position'⟩ :: later := by
  intro hfound
  -- by the lexemes that come first: the two numbers are found at the front or further on
  induction h generalizing earlier with
  | nil => cases earlier <;> cases hfound
  | number hnumeric hends hrest ih =>
      cases earlier with
      | nil =>
          obtain ⟨-, rfl⟩ := List.cons.inj hfound
          obtain ⟨c, hc, hnumeric⟩ := hrest.isNumeric_head
          exact Bool.false_ne_true ((hends c hc).symm.trans hnumeric)
      | cons _ earlier => exact ih earlier (List.cons.inj hfound).2
  | operator op _ ih =>
      cases earlier with
      | nil => cases (List.cons.inj hfound).1
      | cons _ earlier => exact ih earlier (List.cons.inj hfound).2
  | opening _ ih =>
      cases earlier with
      | nil => cases (List.cons.inj hfound).1
      | cons _ earlier => exact ih earlier (List.cons.inj hfound).2
  | closing _ ih =>
      cases earlier with
      | nil => cases (List.cons.inj hfound).1
      | cons _ earlier => exact ih earlier (List.cons.inj hfound).2

end Lexed

/-! ## Flaws -/

/-- Between the marks before and after there begins a flaw, and it is reported as the fault: an
operator that is directly followed by itself, or a longest stretch of digits and points that has no
digit or more than one point. -/
inductive IsFlaw (before : List Mark) : List Mark → Fault → Prop where
  | doubled (op : Operator) {position next : Nat} {rest : List Mark} :
      IsFlaw before (⟨op.symbol, position⟩ :: ⟨op.symbol, next⟩ :: rest)
        (.unexpected (String.ofList [op.symbol, op.symbol]) position)
  | malformed {first : Mark} {more rest : List Mark} :
      (∀ c ∈ (before.map Mark.char).getLast?, isNumeric c = false) →
        (∀ mark ∈ first :: more, isNumeric mark.char = true) → EndsRun (rest.map Mark.char) →
          ((∀ mark ∈ first :: more, mark.char.isDigit = false) ∨
            1 < ((first :: more).map Mark.char).count '.') →
            IsFlaw before (first :: more ++ rest)
              (.malformed (String.ofList ((first :: more).map Mark.char)) first.position)

/-- After so many marks there begins a flaw that is reported as the fault. -/
def FlawAt (marks : List Mark) (index : Nat) (fault : Fault) : Prop :=
  ∃ before after, marks = before ++ after ∧ before.length = index ∧ IsFlaw before after fault

/-- The fault is that of the first flaw. -/
def IsFirstFlaw (marks : List Mark) (fault : Fault) : Prop :=
  ∃ index, FlawAt marks index fault ∧ ∀ other cause, FlawAt marks other cause → index ≤ other

/-- A stretch is no number when it has no digit or more than one point. -/
theorem isLiteral_eq_false_iff {run : List Mark} :
    isLiteral (run.map Mark.char) = false ↔
      (∀ mark ∈ run, mark.char.isDigit = false) ∨ 1 < (run.map Mark.char).count '.' := by
  rw [isLiteral, Bool.and_eq_false_iff, List.any_eq_false, decide_eq_false_iff_not, Nat.not_le,
    List.forall_mem_map]
  simp only [Bool.not_eq_true]

/-- The longest stretch at the start of the marks, and what comes after it. -/
theorem takeWhile_dropWhile_of_endsRun {run rest : List Mark}
    (hnumeric : ∀ mark ∈ run, isNumeric mark.char = true) (hends : EndsRun (rest.map Mark.char)) :
    numberAhead (run ++ rest) = run.map Mark.char ∧ afterNumber (run ++ rest) = rest := by
  rw [numberAhead, afterNumber, List.takeWhile_append_of_pos hnumeric,
    List.dropWhile_append_of_pos hnumeric]
  cases rest with
  | nil => simp
  | cons next rest =>
      have hnext : ¬ isNumeric next.char = true := by
        rw [hends next.char rfl]
        exact Bool.false_ne_true
      have htake : ((next :: rest).takeWhile fun mark => isNumeric mark.char) = [] :=
        List.takeWhile_cons_of_neg hnext
      have hdrop : ((next :: rest).dropWhile fun mark => isNumeric mark.char) = next :: rest :=
        List.dropWhile_cons_of_neg hnext
      rw [htake, hdrop, List.append_nil]
      exact ⟨rfl, rfl⟩

section Flaws

variable {marks run before after rest : List Mark} {first mark : Mark} {fault fault' : Fault}

/-- One flaw at most begins at a place. -/
theorem IsFlaw.unique (h : IsFlaw before after fault) (h' : IsFlaw before after fault') :
    fault = fault' := by
  generalize hafter : after = after' at h'
  cases h with
  | doubled op =>
      cases h' with
      | doubled op' =>
          obtain ⟨hmark, -⟩ := List.cons.inj hafter
          obtain ⟨hchar, rfl⟩ := Mark.mk.inj hmark
          rw [hchar]
      | malformed _ hnumeric _ _ =>
          obtain ⟨rfl, -⟩ := List.cons.inj hafter
          cases (isNumeric_symbol op).symm.trans (hnumeric _ (List.mem_cons_self ..))
  | malformed _ hnumeric hends _ =>
      cases h' with
      | doubled op' =>
          obtain ⟨rfl, -⟩ := List.cons.inj hafter
          cases (isNumeric_symbol op').symm.trans (hnumeric _ (List.mem_cons_self ..))
      | malformed _ hnumeric' hends' _ =>
          have hrun := (takeWhile_dropWhile_of_endsRun hnumeric hends).1
          rw [hafter, (takeWhile_dropWhile_of_endsRun hnumeric' hends').1] at hrun
          obtain ⟨rfl, -⟩ := List.cons.inj hafter
          rw [hrun]

/-- The first flaw is reported as one fault. -/
theorem IsFirstFlaw.unique (h : IsFirstFlaw marks fault) (h' : IsFirstFlaw marks fault') :
    fault = fault' := by
  obtain ⟨index, hflaw, hleast⟩ := h
  obtain ⟨index', hflaw', hleast'⟩ := h'
  obtain rfl := Nat.le_antisymm (hleast _ _ hflaw') (hleast' _ _ hflaw)
  obtain ⟨before, after, rfl, hbefore, hflaw⟩ := hflaw
  obtain ⟨before', after', hmarks, hbefore', hflaw'⟩ := hflaw'
  obtain ⟨rfl, rfl⟩ := List.append_inj hmarks (hbefore.trans hbefore'.symm)
  exact hflaw.unique hflaw'

/-- A flaw at the front is the first one. -/
theorem isFirstFlaw_of_front (h : IsFlaw [] marks fault) : IsFirstFlaw marks fault :=
  ⟨0, ⟨[], marks, rfl, rfl, h⟩, fun _ _ _ => Nat.zero_le _⟩

/-- What stands before a flaw can be left out from the front. -/
theorem IsFlaw.of_append (h : IsFlaw (run ++ before) after fault) : IsFlaw before after fault := by
  cases h with
  | doubled op => exact .doubled op
  | malformed hstarts hnumeric hends hliteral =>
      refine .malformed (fun c hc => hstarts c ?_) hnumeric hends hliteral
      rw [List.map_append, List.getLast?_append, Option.mem_def.mp hc]
      rfl

/-- Something can be put before a flaw, unless a stretch would become longer by that. -/
theorem IsFlaw.append (h : IsFlaw before after fault)
    (hends : (∀ c ∈ (run.map Mark.char).getLast?, isNumeric c = false) ∨
      EndsRun ((before ++ after).map Mark.char)) : IsFlaw (run ++ before) after fault := by
  cases h with
  | doubled op => exact .doubled op
  | @malformed first more rest hstarts hnumeric hrest hliteral =>
      refine .malformed (fun c hc => ?_) hnumeric hrest hliteral
      rw [List.map_append, List.getLast?_append] at hc
      cases hlast : (before.map Mark.char).getLast? with
      | some d =>
          rw [hlast] at hc
          obtain rfl : d = c := Option.some.inj hc
          exact hstarts d hlast
      | none =>
          rw [hlast] at hc
          rcases hends with hrun | hends
          · exact hrun c hc
          · -- the flaw would begin where no stretch can
            rw [List.map_eq_nil_iff.mp (List.getLast?_eq_none_iff.mp hlast)] at hends
            cases (hends first.char rfl).symm.trans (hnumeric first (List.mem_cons_self ..))

/-- Once no flaw begins in the first marks, the flaws are those of the other marks. -/
theorem flawAt_append_iff (hrun : ∀ before after, run = before ++ after → after ≠ [] →
      ¬ IsFlaw before (after ++ rest) fault)
    (hends : (∀ c ∈ (run.map Mark.char).getLast?, isNumeric c = false) ∨ EndsRun (rest.map Mark.char))
    {index : Nat} :
    FlawAt (run ++ rest) index fault ↔
      ∃ later, index = run.length + later ∧ FlawAt rest later fault := by
  constructor
  · rintro ⟨before, after, hmarks, rfl, hflaw⟩
    rcases List.append_eq_append_iff.mp hmarks with ⟨gap, rfl, rfl⟩ | ⟨gap, rfl, rfl⟩
    · exact ⟨gap.length, List.length_append, gap, after, rfl, rfl, hflaw.of_append⟩
    · cases gap with
      | nil => exact ⟨0, by simp, [], rest, rfl, rfl, IsFlaw.of_append (by simpa using hflaw)⟩
      | cons mark gap => exact absurd hflaw (hrun before (mark :: gap) rfl (List.cons_ne_nil _ _))
  · rintro ⟨later, rfl, before, after, rfl, rfl, hflaw⟩
    exact ⟨run ++ before, after, (List.append_assoc ..).symm, List.length_append, hflaw.append hends⟩

/-- The first flaw of the other marks is the first one of all. -/
theorem IsFirstFlaw.append
    (hrun : ∀ fault before after, run = before ++ after → after ≠ [] →
      ¬ IsFlaw before (after ++ rest) fault)
    (hends : (∀ c ∈ (run.map Mark.char).getLast?, isNumeric c = false) ∨ EndsRun (rest.map Mark.char))
    (h : IsFirstFlaw rest fault) : IsFirstFlaw (run ++ rest) fault := by
  obtain ⟨index, hflaw, hleast⟩ := h
  refine ⟨run.length + index, (flawAt_append_iff (hrun fault) hends).mpr ⟨index, rfl, hflaw⟩, ?_⟩
  intro other cause hother
  obtain ⟨later, rfl, hlater⟩ := (flawAt_append_iff (hrun cause) hends).mp hother
  exact Nat.add_le_add_left (hleast later cause hlater) _

/-- No flaw begins within a longest stretch that is a number. -/
theorem not_isFlaw_of_literal (hnumeric : ∀ mark ∈ run, isNumeric mark.char = true)
    (hends : EndsRun (rest.map Mark.char)) (hliteral : isLiteral (run.map Mark.char) = true)
    (hrun : run = before ++ after) (hafter : after ≠ []) : ¬ IsFlaw before (after ++ rest) fault := by
  intro hflaw
  generalize hmarks : after ++ rest = marks at hflaw
  obtain ⟨mark, tail, rfl⟩ := List.exists_cons_of_ne_nil hafter
  have hmark : isNumeric mark.char = true := hnumeric mark (by simp [hrun])
  cases hflaw with
  | doubled op =>
      obtain ⟨rfl, -⟩ := List.cons.inj hmarks
      cases (isNumeric_symbol op).symm.trans hmark
  | @malformed first more rest' hstarts hnumeric' hends' hmalformed =>
      cases before with
      | nil =>
          -- the stretch is the whole number
          rw [List.nil_append] at hrun
          have hahead := (takeWhile_dropWhile_of_endsRun hnumeric' hends').1
          rw [← hmarks, ← hrun, (takeWhile_dropWhile_of_endsRun hnumeric hends).1] at hahead
          rw [← isLiteral_eq_false_iff, ← hahead, hliteral] at hmalformed
          cases hmalformed
      | cons b before =>
          -- a character of the number stands right before the stretch
          have hlast : ((b :: before).map Mark.char).getLast? =
              some ((b :: before).getLast (List.cons_ne_nil b before)).char := by
            rw [List.getLast?_map, List.getLast?_eq_some_getLast (List.cons_ne_nil b before)]
            rfl
          have hmem : (b :: before).getLast (List.cons_ne_nil b before) ∈ run := by
            rw [hrun]
            exact List.mem_append_left _ (List.getLast_mem _)
          cases (hstarts _ hlast).symm.trans (hnumeric _ hmem)

/-- No flaw begins with a character that is a token of its own, unless it is written twice. -/
theorem not_isFlaw_of_alone (hnumeric : isNumeric mark.char = false)
    (hdoubled : ¬ isDoubled mark.char rest = true) (hrun : [mark] = before ++ after)
    (hafter : after ≠ []) : ¬ IsFlaw before (after ++ rest) fault := by
  intro hflaw
  obtain ⟨rfl, rfl⟩ : before = [] ∧ after = [mark] := by
    cases before with
    | nil => exact ⟨rfl, hrun.symm⟩
    | cons b before => exact absurd (List.append_eq_nil_iff.mp (List.cons.inj hrun).2.symm).2 hafter
  cases hflaw with
  | doubled op => exact hdoubled (isDoubled_eq_true_iff.mpr ⟨op, rfl, rfl⟩)
  | malformed _ hstretch _ _ =>
      cases hnumeric.symm.trans (hstretch mark (List.mem_cons_self ..))

end Flaws

/-! ## The cut -/

section Cutting

variable {marks : List Mark} {found : List Lexeme} {fault : Fault}

/-- A number at the start of the marks, with what is left after it. -/
theorem cons_eq_number_append (mark : Mark) (rest : List Mark) (hnumeric : isNumeric mark.char = true) :
    ∃ more, mark :: rest = mark :: more ++ afterNumber rest ∧
      (mark :: more).map Mark.char = mark.char :: numberAhead rest ∧
        (∀ next ∈ mark :: more, isNumeric next.char = true) ∧
          EndsRun ((afterNumber rest).map Mark.char) := by
  refine ⟨rest.takeWhile fun next => isNumeric next.char, ?_, rfl, ?_, endsRun_afterNumber rest⟩
  · rw [afterNumber, List.cons_append, List.takeWhile_append_dropWhile]
  · intro next hnext
    rcases List.mem_cons.mp hnext with rfl | hnext
    · exact hnumeric
    · exact List.mem_takeWhile_imp (p := fun next : Mark => isNumeric next.char) hnext

/-- What the cut finds the marks consist of. -/
theorem isLexed_of_lexemes (h : lexemes marks = .ok found) : IsLexed marks found := by
  fun_induction lexemes marks generalizing found with
  | case1 =>
      obtain rfl := Except.ok.inj h
      exact .nil
  | case2 mark rest hnumeric digits hliteral =>
      next ih =>
      obtain ⟨later, hlater, hfound⟩ := bind_eq_ok_iff.mp h
      obtain rfl := Except.ok.inj hfound
      obtain ⟨more, hmarks, hdigits, hall, hends⟩ := cons_eq_number_append mark rest hnumeric
      rw [hmarks, show digits = (mark :: more).map Mark.char from hdigits.symm]
      exact .number hall hends (ih hlater)
  | case3 => cases h
  | case4 => cases h
  | case5 => cases h
  | case6 mark rest hnumeric token htoken hdoubled ih =>
      obtain ⟨later, hlater, hfound⟩ := bind_eq_ok_iff.mp h
      obtain rfl := Except.ok.inj hfound
      obtain ⟨c, position⟩ := mark
      rw [Token.ofChar?] at htoken
      split at htoken
      · next hopening =>
          obtain rfl := Option.some.inj htoken
          obtain rfl := eq_of_beq hopening
          exact .opening (ih hlater)
      · split at htoken
        · next hclosing =>
            obtain rfl := Option.some.inj htoken
            obtain rfl := eq_of_beq hclosing
            exact .closing (ih hlater)
        · obtain ⟨op, hop, rfl⟩ := Option.map_eq_some_iff.mp htoken
          obtain rfl := Operator.ofChar?_eq_some_iff.mp hop
          exact .operator op (ih hlater)

/-- A cut of arithmetic characters that fails reports the first flaw. -/
theorem isFirstFlaw_of_lexemes (harithmetic : ∀ mark ∈ marks, isArithmetic mark.char = true)
    (h : lexemes marks = .error fault) : IsFirstFlaw marks fault := by
  fun_induction lexemes marks with
  | case1 => cases h
  | case2 mark rest hnumeric digits hliteral =>
      next ih =>
      obtain ⟨more, hmarks, hdigits, hall, hends⟩ := cons_eq_number_append mark rest hnumeric
      rcases bind_eq_error_iff.mp h with hlater | ⟨later, -, hfound⟩
      · have hrest : ∀ next ∈ afterNumber rest, isArithmetic next.char = true := fun next hnext =>
          harithmetic next (by rw [hmarks]; exact List.mem_append_right _ hnext)
        rw [hmarks]
        refine (ih hrest hlater).append ?_ (Or.inr hends)
        exact fun _ _ _ => not_isFlaw_of_literal hall hends (by rw [hdigits]; exact hliteral)
      · cases hfound
  | case3 mark rest hnumeric digits hliteral =>
      obtain rfl := Except.error.inj h
      obtain ⟨more, hmarks, hdigits, hall, hends⟩ := cons_eq_number_append mark rest hnumeric
      rw [hmarks, show digits = (mark :: more).map Mark.char from hdigits.symm]
      refine isFirstFlaw_of_front
        (.malformed (fun _ hc => absurd hc (Option.not_mem_none _)) hall hends ?_)
      rw [← isLiteral_eq_false_iff, hdigits]
      exact Bool.eq_false_iff.mpr hliteral
  | case4 mark rest hnumeric hnone =>
      obtain ⟨token, htoken⟩ :=
        exists_ofChar?_of_isArithmetic (harithmetic mark (List.mem_cons_self ..)) hnumeric
      cases hnone.symm.trans htoken
  | case5 mark rest hnumeric token htoken hdoubled =>
      obtain rfl := Except.error.inj h
      obtain ⟨op, hop, hnext⟩ := isDoubled_eq_true_iff.mp hdoubled
      obtain ⟨c, position⟩ := mark
      obtain rfl : op.symbol = c := hop
      cases rest with
      | nil => cases hnext
      | cons next rest =>
          obtain ⟨d, place⟩ := next
          obtain rfl : d = op.symbol := Option.some.inj hnext
          exact isFirstFlaw_of_front (.doubled op)
  | case6 mark rest hnumeric token htoken hdoubled ih =>
      rcases bind_eq_error_iff.mp h with hlater | ⟨later, -, hfound⟩
      · have hrest : ∀ next ∈ rest, isArithmetic next.char = true := fun next hnext =>
          harithmetic next (List.mem_cons_of_mem _ hnext)
        have hmark : isNumeric mark.char = false := Bool.eq_false_iff.mpr hnumeric
        have hlast : ∀ c ∈ ([mark].map Mark.char).getLast?, isNumeric c = false := by
          intro c hc
          obtain rfl : mark.char = c := Option.some.inj hc
          exact hmark
        have hfirst : IsFirstFlaw ([mark] ++ rest) fault :=
          (ih hrest hlater).append (fun _ _ _ => not_isFlaw_of_alone hmark hdoubled) (Or.inl hlast)
        exact hfirst
      · cases hfound

/-- There is a flaw exactly when an operator is repeated or some stretch is no number. -/
theorem exists_flawAt_iff :
    (∃ index fault, FlawAt marks index fault) ↔
      RepeatsOperator (marks.map Mark.char) ∨ ¬ HasNumbers (marks.map Mark.char) := by
  constructor
  · rintro ⟨index, fault, before, after, rfl, -, hflaw⟩
    cases hflaw with
    | @doubled op _ _ rest =>
        exact Or.inl ⟨op, before.map Mark.char, rest.map Mark.char, by simp⟩
    | @malformed first more rest hstarts hnumeric hends hmalformed =>
        refine Or.inr fun hnumbers => ?_
        have hrun : IsRun ((first :: more).map Mark.char)
            ((before ++ (first :: more ++ rest)).map Mark.char) :=
          ⟨before.map Mark.char, rest.map Mark.char, by simp, by simp,
            List.forall_mem_map.mpr hnumeric, hstarts, hends⟩
        obtain ⟨⟨c, hc, hdigit⟩, hcount⟩ := hnumbers _ hrun
        rcases hmalformed with hnone | hpoints
        · obtain ⟨mark, hmark, rfl⟩ := List.mem_map.mp hc
          cases (hnone mark hmark).symm.trans hdigit
        · exact absurd hcount (Nat.not_le.mpr hpoints)
  · rintro (⟨op, start, rest, hmarks⟩ | hnumbers)
    · obtain ⟨front, later, rfl, hfront, -⟩ := List.map_eq_append_iff.mp hmarks.symm
      obtain ⟨before, pair, rfl, -, hpair⟩ := List.map_eq_append_iff.mp hfront
      obtain ⟨⟨c, position⟩, tail, rfl, rfl, htail⟩ := List.map_eq_cons_iff.mp hpair
      obtain ⟨⟨d, next⟩, more, rfl, rfl, hmore⟩ := List.map_eq_cons_iff.mp htail
      obtain rfl := List.map_eq_nil_iff.mp hmore
      exact ⟨_, _, before, _, List.append_assoc .., rfl, .doubled op⟩
    · -- some stretch is no number, and its marks are the flaw
      rw [HasNumbers, not_forall] at hnumbers
      obtain ⟨run, hnumbers⟩ := hnumbers
      rw [Classical.not_imp] at hnumbers
      obtain ⟨⟨start, rest, hmarks, hne, hnumeric, hstarts, hends⟩, hnot⟩ := hnumbers
      obtain ⟨before, tail, rfl, rfl, htail⟩ := List.map_eq_append_iff.mp hmarks
      obtain ⟨stretch, after, rfl, rfl, rfl⟩ := List.map_eq_append_iff.mp htail
      cases stretch with
      | nil => exact absurd rfl hne
      | cons first more =>
          refine ⟨_, _, before, _, rfl, rfl, .malformed hstarts ?_ hends ?_⟩
          · exact List.forall_mem_map.mp hnumeric
          · rw [← isLiteral_eq_false_iff, isLiteral, ← Bool.not_eq_true, Bool.and_eq_true,
              List.any_eq_true, decide_eq_true_iff]
            exact hnot

/-- Marks without a flaw are cut into the lexemes that they consist of. -/
theorem IsLexed.lexemes_eq (h : IsLexed marks found)
    (hrepeats : ¬ RepeatsOperator (marks.map Mark.char)) (hnumbers : HasNumbers (marks.map Mark.char)) :
    lexemes marks = .ok found := by
  -- one token that is no number, and the rest after it
  have alone {c : Char} {token : Token} {position : Nat} {rest : List Mark} {later : List Lexeme}
      (hc : isNumeric c = false) (htoken : Token.ofChar? c = some token)
      (hrepeats : ¬ RepeatsOperator (c :: rest.map Mark.char))
      (hnumbers : HasNumbers (c :: rest.map Mark.char))
      (ih : ¬ RepeatsOperator (rest.map Mark.char) → HasNumbers (rest.map Mark.char) →
        lexemes rest = .ok later) :
      lexemes (⟨c, position⟩ :: rest) = .ok (⟨token, position⟩ :: later) := by
    have hdoubled : ¬ isDoubled c rest = true := fun hd =>
      hrepeats (repeatsOperator_cons_iff.mpr (Or.inl (isDoubled_eq_true_iff.mp hd)))
    have hlater := ih (fun hr => hrepeats (repeatsOperator_cons_iff.mpr (Or.inr hr)))
      fun run hrun => hnumbers run ((isRun_cons_iff hc).mpr hrun)
    rw [lexemes_of_some (by simp [hc]) htoken, if_neg hdoubled, hlater]
    rfl
  induction h with
  | nil => rw [lexemes]
  | @number first more rest later hnumeric hends _ ih =>
      have hmore : ∀ mark ∈ more, isNumeric mark.char = true := fun mark hmark =>
        hnumeric mark (List.mem_cons_of_mem _ hmark)
      obtain ⟨hahead, hafter⟩ := takeWhile_dropWhile_of_endsRun hmore hends
      have hchars : ∀ c ∈ (first :: more).map Mark.char, isNumeric c = true :=
        List.forall_mem_map.mpr hnumeric
      have hruns (run : List Char) :
          IsRun run ((first :: more).map Mark.char ++ rest.map Mark.char) ↔
            run = (first :: more).map Mark.char ∨ IsRun run (rest.map Mark.char) :=
        isRun_append_iff (by simp) hchars hends
      rw [List.map_append] at hrepeats hnumbers
      have hliteral : isLiteral (first.char :: numberAhead (more ++ rest)) = true := by
        rw [hahead, isLiteral, Bool.and_eq_true, List.any_eq_true, decide_eq_true_iff]
        exact hnumbers _ ((hruns _).mpr (Or.inl rfl))
      have hlater := ih (fun hr => hrepeats ((repeatsOperator_append_iff hchars).mpr hr))
        fun run hrun => hnumbers run ((hruns run).mpr (Or.inr hrun))
      rw [List.cons_append, lexemes_of_literal (hnumeric first (List.mem_cons_self ..)) hliteral,
        hafter, hlater, hahead]
      rfl
  | operator op _ ih =>
      exact alone (isNumeric_symbol op) (Token.ofChar?_symbol op) hrepeats hnumbers ih
  | opening _ ih => exact alone rfl rfl hrepeats hnumbers ih
  | closing _ ih => exact alone rfl rfl hrepeats hnumbers ih

end Cutting

/-! ## The marks of a text -/

/-- The characters of a text stand at increasing positions. -/
theorem pairwise_position_marks (text : String) :
    (marks text).Pairwise fun mark next => mark.position < next.position := by
  have from_position (position : Nat) (l : List Char) :
      (marksFrom position l).Pairwise (fun mark next => mark.position < next.position) ∧
        ∀ mark ∈ marksFrom position l, position ≤ mark.position := by
    induction l generalizing position with
    | nil => exact ⟨.nil, List.forall_mem_nil _⟩
    | cons c rest ih =>
        obtain ⟨hpairs, hbounds⟩ := ih (position + c.utf8Size)
        have hsize : position < position + c.utf8Size := Nat.lt_add_of_pos_right c.utf8Size_pos
        have hlater : ∀ mark ∈ marksFrom (position + c.utf8Size) rest, position < mark.position :=
          fun mark hmark => Nat.lt_of_lt_of_le hsize (hbounds mark hmark)
        refine ⟨List.pairwise_cons.mpr ⟨hlater, hpairs⟩, List.forall_mem_cons.mpr ⟨Nat.le_refl _, ?_⟩⟩
        exact fun mark hmark => Nat.le_of_lt (hlater mark hmark)
  exact (from_position 0 text.toList).1.sublist List.filter_sublist

/-- The lexemes of a text stand at increasing positions. -/
theorem pairwise_position_lexemes {text : String} {found : List Lexeme}
    (h : lexemes (marks text) = .ok found) :
    found.Pairwise fun lexeme next => lexeme.position < next.position :=
  (isLexed_of_lexemes h).pairwise_position (pairwise_position_marks text)

/-! ## The cut as a whole -/

/-- **The cut of arithmetic characters loses and invents nothing.**  It gives the lexemes that the
marks consist of, so that their spellings are the characters of the marks, their positions increase
where those of the marks do, and no two numbers are next to each other.  It fails exactly when an
operator is directly followed by itself or some stretch of digits and points is no number, with the
fault of the first place where that is so. -/
theorem lexemes_lossless {marks : List Mark}
    (harithmetic : ∀ mark ∈ marks, isArithmetic mark.char = true) :
    (∀ found, lexemes marks = .ok found ↔
      IsLexed marks found ∧ ∀ index fault, ¬ FlawAt marks index fault) ∧
    (∀ found, lexemes marks = .ok found →
      spelled (found.map Lexeme.token) = marks.map Mark.char ∧
      (marks.Pairwise (fun mark next => mark.position < next.position) →
        found.Pairwise fun lexeme next => lexeme.position < next.position) ∧
      ∀ earlier digits digits' position position' later,
        found ≠ earlier ++ ⟨.number digits, position⟩ :: ⟨.number digits', position'⟩ :: later) ∧
    (∀ fault, lexemes marks = .error fault ↔ IsFirstFlaw marks fault) ∧
    ((∃ fault, lexemes marks = .error fault) ↔
      RepeatsOperator (marks.map Mark.char) ∨ ¬ HasNumbers (marks.map Mark.char)) := by
  have hsound {found : List Lexeme} (h : lexemes marks = .ok found) :
      ∀ index fault, ¬ FlawAt marks index fault := by
    obtain ⟨-, hrepeats, hnumbers⟩ := exists_lexemes_iff.mp ⟨found, h, rfl⟩
    intro index fault hflaw
    rcases exists_flawAt_iff.mp ⟨index, fault, hflaw⟩ with hr | hn
    · exact hrepeats hr
    · exact hn hnumbers
  have herror (fault : Fault) : lexemes marks = .error fault ↔ IsFirstFlaw marks fault := by
    constructor
    · exact isFirstFlaw_of_lexemes harithmetic
    · intro hfirst
      obtain ⟨index, hflaw, -⟩ := id hfirst
      cases hanswer : lexemes marks with
      | ok found => exact absurd hflaw (hsound hanswer index fault)
      | error other => rw [(isFirstFlaw_of_lexemes harithmetic hanswer).unique hfirst]
  refine ⟨fun found => ⟨fun h => ⟨isLexed_of_lexemes h, hsound h⟩, ?_⟩, fun found h => ?_, herror, ?_⟩
  · rintro ⟨hlexed, hnone⟩
    have hclean : ¬ (RepeatsOperator (marks.map Mark.char) ∨ ¬ HasNumbers (marks.map Mark.char)) :=
      fun h => by
        obtain ⟨index, fault, hflaw⟩ := exists_flawAt_iff.mpr h
        exact hnone index fault hflaw
    rw [not_or, not_not] at hclean
    exact hlexed.lexemes_eq hclean.1 hclean.2
  · have hlexed := isLexed_of_lexemes h
    exact ⟨hlexed.spelled_eq, hlexed.pairwise_position, hlexed.not_adjacent⟩
  · rw [← exists_flawAt_iff]
    constructor
    · rintro ⟨fault, h⟩
      obtain ⟨index, hflaw, -⟩ := (herror fault).mp h
      exact ⟨index, fault, hflaw⟩
    · rintro ⟨index, fault, hflaw⟩
      cases hanswer : lexemes marks with
      | ok found => exact absurd hflaw (hsound hanswer index fault)
      | error other => exact ⟨other, rfl⟩

/-- The point alone is reported, and not the operator that is written twice behind it. -/
theorem lexemes_lossless_two_flaws :
    (∀ mark ∈ marks "3 .5* .--", isArithmetic mark.char = true) ∧
      IsFirstFlaw (marks "3 .5* .--") (.malformed "." 6) := by
  have harithmetic : ∀ mark ∈ marks "3 .5* .--", isArithmetic mark.char = true :=
    List.all_eq_true.mp (by decide +kernel)
  obtain ⟨-, -, herror, -⟩ := lexemes_lossless harithmetic
  exact ⟨harithmetic, (herror _).mp (by decide +kernel)⟩

end Abacus.Expression
