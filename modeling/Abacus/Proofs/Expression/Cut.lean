import Mathlib.Data.List.TakeWhile
import Abacus.Expression.Lexeme
import Abacus.Proofs.Except

/-!
# Cut — the tokens that a text without white space consists of

A longest stretch of digits and points is one number, and each operator or parenthesis is a token
of its own.  `IsCut` says so as rules; `lexemes` finds the cut, unless an operator is written
twice in a row or a stretch is no number.  Both exceptions are said of the text itself.
-/

namespace Abacus.Expression

/-! ## Stretches and repetitions in a text -/

/-- The text does not begin with a digit or a point. -/
def EndsRun (rest : List Char) : Prop :=
  ∀ c ∈ rest.head?, isNumeric c = false

/-- A longest stretch of digits and points in the text. -/
def IsRun (run text : List Char) : Prop :=
  ∃ before after, text = before ++ (run ++ after) ∧ run ≠ [] ∧ (∀ c ∈ run, isNumeric c = true) ∧
    (∀ c ∈ before.getLast?, isNumeric c = false) ∧ EndsRun after

/-- Every longest stretch of digits and points has a digit and at most one point. -/
def HasNumbers (text : List Char) : Prop :=
  ∀ run, IsRun run text → (∃ c ∈ run, c.isDigit = true) ∧ run.count '.' ≤ 1

/-- Some operator is directly followed by itself. -/
def RepeatsOperator (text : List Char) : Prop :=
  ∃ op : Operator, [op.symbol, op.symbol] <:+: text

/-- There is no stretch in the empty text. -/
theorem not_isRun_nil (run : List Char) : ¬ IsRun run [] := by
  rintro ⟨before, after, h, nonempty, -⟩
  simp_all

/-- A character that is neither digit nor point takes part in no stretch. -/
theorem isRun_cons_iff {c : Char} (hc : isNumeric c = false) {run rest : List Char} :
    IsRun run (c :: rest) ↔ IsRun run rest := by
  constructor
  · rintro ⟨before, after, h, nonempty, numeric, starts, ends⟩
    cases before with
    | nil =>
        -- the stretch cannot begin with `c`
        obtain ⟨d, run', rfl⟩ := List.exists_cons_of_ne_nil nonempty
        obtain ⟨rfl, -⟩ := List.cons.inj h
        exact absurd (numeric c (by simp)) (by simp [hc])
    | cons b before =>
        obtain ⟨rfl, hrest⟩ := List.cons.inj h
        refine ⟨before, after, hrest, nonempty, numeric, ?_, ends⟩
        intro d hd
        refine starts d ?_
        cases before with
        | nil => exact nomatch hd
        | cons e before => simpa using hd
  · rintro ⟨before, after, h, nonempty, numeric, starts, ends⟩
    refine ⟨c :: before, after, by rw [h, List.cons_append], nonempty, numeric, ?_, ends⟩
    intro d hd
    cases before with
    | nil =>
        obtain rfl : c = d := by simpa using hd
        exact hc
    | cons e before => exact starts d (by simpa using hd)

/-- Two longest stretches at the start of one text are the same. -/
theorem run_unique {run run' rest rest' : List Char} (h : run ++ rest = run' ++ rest')
    (numeric : ∀ c ∈ run, isNumeric c = true) (numeric' : ∀ c ∈ run', isNumeric c = true)
    (ends : EndsRun rest) (ends' : EndsRun rest') : run = run' := by
  induction run generalizing run' with
  | nil =>
      cases run' with
      | nil => rfl
      | cons c run' =>
          have := ends c (by rw [List.nil_append] at h; simp [h])
          exact absurd (numeric' c (by simp)) (by simp [this])
  | cons c run ih =>
      cases run' with
      | nil =>
          have := ends' c (by rw [List.nil_append] at h; simp [← h])
          exact absurd (numeric c (by simp)) (by simp [this])
      | cons d run' =>
          obtain ⟨rfl, htail⟩ := List.cons.inj h
          rw [ih htail (fun e he => numeric e (by simp [he]))
            (fun e he => numeric' e (by simp [he]))]

/-- The stretches of a text that begins with one are that one and the later ones. -/
theorem isRun_append_iff {digits rest run : List Char} (nonempty : digits ≠ [])
    (numeric : ∀ c ∈ digits, isNumeric c = true) (ends : EndsRun rest) :
    IsRun run (digits ++ rest) ↔ run = digits ∨ IsRun run rest := by
  constructor
  · rintro ⟨before, after, h, hrun, hnumeric, hstarts, hends⟩
    rcases List.append_eq_append_iff.mp h with ⟨gap, hbefore, hrest⟩ | ⟨gap, hdigits, hrest⟩
    · -- the stretch begins after the first one
      refine Or.inr ⟨gap, after, hrest, hrun, hnumeric, ?_, hends⟩
      intro c hc
      refine hstarts c ?_
      rw [hbefore, List.getLast?_append]
      simp [Option.mem_def.mp hc]
    · cases before with
      | nil =>
          have hsame : run ++ after = digits ++ rest := by rw [hrest, hdigits, List.nil_append]
          exact Or.inl (run_unique hsame hnumeric numeric hends ends)
      | cons b before =>
          -- the stretch would be preceded by a character of the first one
          exfalso
          have hlast := List.getLast?_eq_some_getLast (List.cons_ne_nil b before)
          have hmem : (b :: before).getLast (List.cons_ne_nil b before) ∈ digits := by
            rw [hdigits]
            exact List.mem_append_left _ (List.getLast_mem _)
          have := hstarts _ (Option.mem_def.mpr hlast)
          rw [numeric _ hmem] at this
          exact nomatch this
  · rintro (rfl | ⟨before, after, h, hrun, hnumeric, hstarts, hends⟩)
    · exact ⟨[], rest, by simp, nonempty, numeric, by simp, ends⟩
    · refine ⟨digits ++ before, after, by simp [h], hrun, hnumeric, ?_, hends⟩
      intro c hc
      cases before with
      | nil =>
          -- then `rest` would begin with a digit or a point
          obtain ⟨d, run', rfl⟩ := List.exists_cons_of_ne_nil hrun
          have := ends d (by simp [h])
          rw [hnumeric d (by simp)] at this
          exact nomatch this
      | cons e before =>
          refine hstarts c ?_
          rw [List.getLast?_append] at hc
          simpa using hc

/-- The symbol of an operator is neither digit nor point. -/
@[simp] theorem isNumeric_symbol (op : Operator) : isNumeric op.symbol = false := by
  cases op <;> rfl

/-- A repeated operator stands at the front or further on. -/
theorem repeatsOperator_cons_iff {c : Char} {rest : List Char} :
    RepeatsOperator (c :: rest) ↔
      (∃ op : Operator, op.symbol = c ∧ rest.head? = some c) ∨ RepeatsOperator rest := by
  constructor
  · rintro ⟨op, h⟩
    rcases List.infix_cons_iff.mp h with hfront | hlater
    · obtain ⟨rfl, hnext⟩ := List.cons_prefix_cons.mp hfront
      obtain ⟨tail, rfl⟩ := hnext
      exact Or.inl ⟨op, rfl, rfl⟩
    · exact Or.inr ⟨op, hlater⟩
  · rintro (⟨op, rfl, hnext⟩ | ⟨op, h⟩)
    · obtain ⟨tail, rfl⟩ := List.head?_eq_some_iff.mp hnext
      exact ⟨op, [], tail, rfl⟩
    · exact ⟨op, List.infix_cons h⟩

/-- There is no repeated operator within a stretch of digits and points, nor at its end. -/
theorem repeatsOperator_append_iff {digits rest : List Char}
    (numeric : ∀ c ∈ digits, isNumeric c = true) :
    RepeatsOperator (digits ++ rest) ↔ RepeatsOperator rest := by
  induction digits with
  | nil => exact Iff.rfl
  | cons c digits ih =>
      rw [List.cons_append, repeatsOperator_cons_iff, ih fun d hd => numeric d (by simp [hd])]
      constructor
      · rintro (⟨op, rfl, -⟩ | h)
        · exact absurd (numeric op.symbol (by simp)) (by simp)
        · exact h
      · exact Or.inr

/-- `isDoubled` looks for a repeated operator at the front. -/
theorem isDoubled_eq_true_iff {c : Char} {rest : List Mark} :
    isDoubled c rest = true ↔
      ∃ op : Operator, op.symbol = c ∧ (rest.map Mark.char).head? = some c := by
  rw [isDoubled, Bool.and_eq_true, Option.isSome_iff_exists]
  constructor
  · rintro ⟨⟨op, hop⟩, hnext⟩
    refine ⟨op, Operator.ofChar?_eq_some_iff.mp hop, ?_⟩
    cases rest with
    | nil => exact nomatch hnext
    | cons next rest => simpa using hnext
  · rintro ⟨op, hop, hnext⟩
    refine ⟨⟨op, Operator.ofChar?_eq_some_iff.mpr hop⟩, ?_⟩
    cases rest with
    | nil => exact nomatch hnext
    | cons next rest => simpa using hnext

/-! ## The cut of a text -/

/-- The text consists of the tokens: a number is a longest stretch of digits and points. -/
inductive IsCut : List Char → List Token → Prop where
  | nil : IsCut [] []
  | number {digits rest : List Char} {tokens : List Token} :
      digits ≠ [] → (∀ c ∈ digits, isNumeric c = true) → EndsRun rest → IsCut rest tokens →
        IsCut (digits ++ rest) (.number digits :: tokens)
  | operator {rest : List Char} {tokens : List Token} (op : Operator) :
      IsCut rest tokens → IsCut (op.symbol :: rest) (.operator op :: tokens)
  | opening {rest : List Char} {tokens : List Token} :
      IsCut rest tokens → IsCut ('(' :: rest) (.opening :: tokens)
  | closing {rest : List Char} {tokens : List Token} :
      IsCut rest tokens → IsCut (')' :: rest) (.closing :: tokens)

/-- The numbers of a cut are the longest stretches of digits and points. -/
theorem IsCut.isRun_iff {text : List Char} {tokens : List Token} (h : IsCut text tokens)
    {run : List Char} : IsRun run text ↔ .number run ∈ tokens := by
  induction h with
  | nil => simp [not_isRun_nil]
  | number nonempty numeric ends _ ih =>
      rw [isRun_append_iff nonempty numeric ends, ih, List.mem_cons, Token.number.injEq]
  | operator op _ ih => simp [isRun_cons_iff, ih]
  | opening _ ih => simp [isRun_cons_iff (c := '(') rfl, ih]
  | closing _ ih => simp [isRun_cons_iff (c := ')') rfl, ih]

/-- A text and its numbers: the stretches are as they should be when all literals are. -/
theorem IsCut.hasNumbers_iff {text : List Char} {tokens : List Token} (h : IsCut text tokens) :
    HasNumbers text ↔ ∀ digits, .number digits ∈ tokens → isLiteral digits = true := by
  have literal (run : List Char) :
      isLiteral run = true ↔ (∃ c ∈ run, c.isDigit = true) ∧ run.count '.' ≤ 1 := by
    rw [isLiteral, Bool.and_eq_true, List.any_eq_true, decide_eq_true_iff]
  constructor
  · intro hnumbers digits hdigits
    exact (literal digits).mpr (hnumbers digits (h.isRun_iff.mpr hdigits))
  · intro hliterals run hrun
    exact (literal run).mp (hliterals run (h.isRun_iff.mp hrun))

/-! ## Finding the cut -/

/-- A character that is a token of its own is cut off as that token. -/
theorem IsCut.cons_ofChar? {c : Char} {token : Token} (hc : Token.ofChar? c = some token)
    {rest : List Char} {tokens : List Token} (h : IsCut rest tokens) :
    IsCut (c :: rest) (token :: tokens) := by
  rw [Token.ofChar?] at hc
  split at hc
  · next hopening =>
      obtain rfl := Option.some.inj hc
      rw [eq_of_beq hopening]
      exact .opening h
  · split at hc
    · next hclosing =>
        obtain rfl := Option.some.inj hc
        rw [eq_of_beq hclosing]
        exact .closing h
    · obtain ⟨op, hop, rfl⟩ := Option.map_eq_some_iff.mp hc
      rw [← Operator.ofChar?_eq_some_iff.mp hop]
      exact .operator op h

/-- The symbol of an operator is the operator. -/
theorem Token.ofChar?_symbol (op : Operator) : Token.ofChar? op.symbol = some (.operator op) := by
  cases op <;> rfl

/-- No token of its own is a number. -/
theorem Token.ofChar?_ne_number {c : Char} {digits : List Char} :
    Token.ofChar? c ≠ some (.number digits) := by
  rw [Token.ofChar?]
  split
  · simp
  · split
    · simp
    · simp

/-- The characters of the marks that make up a number from here on. -/
def numberAhead (marks : List Mark) : List Char :=
  (marks.takeWhile fun next => isNumeric next.char).map Mark.char

/-- The marks after the number. -/
def afterNumber (marks : List Mark) : List Mark :=
  marks.dropWhile fun next => isNumeric next.char

theorem numberAhead_append (marks : List Mark) :
    numberAhead marks ++ (afterNumber marks).map Mark.char = marks.map Mark.char := by
  rw [numberAhead, afterNumber, ← List.map_append, List.takeWhile_append_dropWhile]

theorem isNumeric_of_mem_numberAhead {marks : List Mark} {c : Char} (h : c ∈ numberAhead marks) :
    isNumeric c = true := by
  obtain ⟨mark, hmark, rfl⟩ := List.mem_map.mp h
  exact List.mem_takeWhile_imp (p := fun next : Mark => isNumeric next.char) hmark

theorem endsRun_afterNumber (marks : List Mark) : EndsRun ((afterNumber marks).map Mark.char) := by
  intro c hc
  rw [List.head?_map] at hc
  obtain ⟨mark, hmark, rfl⟩ := Option.map_eq_some_iff.mp hc
  have := List.head?_dropWhile_not (fun next : Mark => isNumeric next.char) marks
  rw [show (marks.dropWhile fun next => isNumeric next.char).head? = some mark from hmark] at this
  exact this

section Equations

variable {mark : Mark} {rest : List Mark}

/-- A number is cut off whole. -/
theorem lexemes_of_literal (hnumeric : isNumeric mark.char = true)
    (hliteral : isLiteral (mark.char :: numberAhead rest) = true) :
    lexemes (mark :: rest) = lexemes (afterNumber rest) >>= fun later =>
      .ok (⟨.number (mark.char :: numberAhead rest), mark.position⟩ :: later) := by
  rw [numberAhead] at hliteral
  rw [lexemes, if_pos hnumeric, if_pos hliteral]
  rfl

/-- A stretch of digits and points that is no number is refused. -/
theorem lexemes_of_not_literal (hnumeric : isNumeric mark.char = true)
    (hliteral : ¬ isLiteral (mark.char :: numberAhead rest) = true) :
    lexemes (mark :: rest) =
      .error (.malformed (String.ofList (mark.char :: numberAhead rest)) mark.position) := by
  rw [numberAhead] at hliteral
  rw [lexemes, if_pos hnumeric, if_neg hliteral]
  rfl

/-- A character that is no token is refused. -/
theorem lexemes_of_none (hnumeric : ¬ isNumeric mark.char = true)
    (htoken : Token.ofChar? mark.char = none) :
    lexemes (mark :: rest) = .error (.unexpected (String.singleton mark.char) mark.position) := by
  rw [lexemes, if_neg hnumeric, htoken]

/-- An operator that is repeated is refused, and any other token of its own is cut off. -/
theorem lexemes_of_some (hnumeric : ¬ isNumeric mark.char = true) {token : Token}
    (htoken : Token.ofChar? mark.char = some token) :
    lexemes (mark :: rest) =
      if isDoubled mark.char rest = true then
        .error (.unexpected (String.ofList [mark.char, mark.char]) mark.position)
      else lexemes rest >>= fun later => .ok (⟨token, mark.position⟩ :: later) := by
  rw [lexemes, if_neg hnumeric, htoken]
  rfl

end Equations

/-- What is cut off is the cut of the text, and the two exceptions do not occur. -/
theorem lexemes_sound {marks : List Mark} {found : List Lexeme} (h : lexemes marks = .ok found) :
    IsCut (marks.map Mark.char) (found.map Lexeme.token) ∧
      ¬ RepeatsOperator (marks.map Mark.char) ∧
      ∀ digits, .number digits ∈ found.map Lexeme.token → isLiteral digits = true := by
  fun_induction lexemes marks generalizing found with
  | case1 =>
      obtain rfl := Except.ok.inj h
      refine ⟨.nil, ?_, by simp⟩
      rintro ⟨op, hop⟩
      exact absurd (List.eq_nil_of_infix_nil hop) (by simp)
  | case2 mark rest hnumeric digits hliteral =>
      next ih =>
      obtain ⟨later, hlater, hfound⟩ := bind_eq_ok_iff.mp h
      obtain rfl := Except.ok.inj hfound
      obtain ⟨hcut, hrepeats, hnumbers⟩ := ih hlater
      have hall : ∀ c ∈ mark.char :: numberAhead rest, isNumeric c = true := by
        intro c hc
        rcases List.mem_cons.mp hc with rfl | hc
        · exact hnumeric
        · exact isNumeric_of_mem_numberAhead hc
      rw [List.map_cons, ← numberAhead_append rest, ← List.cons_append]
      refine ⟨.number (by simp) hall (endsRun_afterNumber rest) hcut, ?_, ?_⟩
      · rwa [repeatsOperator_append_iff hall]
      · intro run hrun
        rcases List.mem_cons.mp hrun with heq | hrun
        · obtain rfl := Token.number.inj heq
          exact hliteral
        · exact hnumbers run hrun
  | case3 => exact nomatch h
  | case4 => exact nomatch h
  | case5 => exact nomatch h
  | case6 mark rest hnumeric token htoken hdoubled ih =>
      obtain ⟨later, hlater, hfound⟩ := bind_eq_ok_iff.mp h
      obtain rfl := Except.ok.inj hfound
      obtain ⟨hcut, hrepeats, hnumbers⟩ := ih hlater
      refine ⟨hcut.cons_ofChar? htoken, ?_, ?_⟩
      · rw [List.map_cons, repeatsOperator_cons_iff]
        rintro (hfront | hrest)
        · exact hdoubled (isDoubled_eq_true_iff.mpr hfront)
        · exact hrepeats hrest
      · intro run hrun
        rcases List.mem_cons.mp hrun with heq | hrun
        · obtain rfl : Token.number run = token := heq
          exact absurd htoken Token.ofChar?_ne_number
        · exact hnumbers run hrun

/-- The number ahead ends where the stretch does. -/
theorem numberAhead_eq {marks : List Mark} {digits rest : List Char}
    (h : marks.map Mark.char = digits ++ rest) (numeric : ∀ c ∈ digits, isNumeric c = true)
    (ends : EndsRun rest) :
    numberAhead marks = digits ∧ (afterNumber marks).map Mark.char = rest := by
  have hsplit := numberAhead_append marks
  have hdigits : numberAhead marks = digits :=
    run_unique (hsplit.trans h) (fun c hc => isNumeric_of_mem_numberAhead hc) numeric
      (endsRun_afterNumber marks) ends
  refine ⟨hdigits, ?_⟩
  rw [h, hdigits] at hsplit
  exact List.append_cancel_left hsplit

/-- A parenthesis or an operator is cut off in front of what is cut, unless it is an operator
that is repeated there. -/
theorem exists_lexemes_cons {marks : List Mark} {c : Char} {rest : List Char} {token : Token}
    {tokens : List Token} (hmarks : marks.map Mark.char = c :: rest) (hc : isNumeric c = false)
    (htoken : Token.ofChar? c = some token) (hrepeats : ¬ RepeatsOperator (c :: rest))
    (later : ∀ marks : List Mark, marks.map Mark.char = rest →
      ∃ found, lexemes marks = .ok found ∧ found.map Lexeme.token = tokens) :
    ∃ found, lexemes marks = .ok found ∧ found.map Lexeme.token = token :: tokens := by
  cases marks with
  | nil => exact nomatch hmarks
  | cons mark marks =>
      obtain ⟨rfl, rfl⟩ := List.cons.inj hmarks
      have hdoubled : ¬ isDoubled mark.char marks = true := by
        intro hd
        exact hrepeats (repeatsOperator_cons_iff.mpr (Or.inl (isDoubled_eq_true_iff.mp hd)))
      obtain ⟨found, hfound, rfl⟩ := later marks rfl
      refine ⟨⟨token, mark.position⟩ :: found, ?_, rfl⟩
      rw [lexemes_of_some (by simp [hc]) htoken, if_neg hdoubled, hfound]
      rfl

/-- A text without the two exceptions is cut into the tokens it consists of. -/
theorem lexemes_complete {text : List Char} {tokens : List Token} (h : IsCut text tokens)
    (hrepeats : ¬ RepeatsOperator text)
    (hnumbers : ∀ digits, .number digits ∈ tokens → isLiteral digits = true)
    {marks : List Mark} (hmarks : marks.map Mark.char = text) :
    ∃ found, lexemes marks = .ok found ∧ found.map Lexeme.token = tokens := by
  induction h generalizing marks with
  | nil =>
      obtain rfl := List.map_eq_nil_iff.mp hmarks
      exact ⟨[], by rw [lexemes], rfl⟩
  | @number digits rest tokens nonempty numeric ends _ ih =>
      cases marks with
      | nil =>
          exact absurd (List.append_eq_nil_iff.mp hmarks.symm).1 nonempty
      | cons mark marks =>
          obtain ⟨first, digits, rfl⟩ := List.exists_cons_of_ne_nil nonempty
          obtain ⟨rfl, htail⟩ := List.cons.inj hmarks
          obtain ⟨rfl, hrest⟩ :=
            numberAhead_eq htail (fun c hc => numeric c (List.mem_cons_of_mem _ hc)) ends
          obtain ⟨found, hfound, rfl⟩ :=
            ih (fun hr => hrepeats ((repeatsOperator_append_iff numeric).mpr hr))
              (fun run hrun => hnumbers run (List.mem_cons_of_mem _ hrun)) hrest
          refine ⟨⟨.number (mark.char :: numberAhead marks), mark.position⟩ :: found, ?_, rfl⟩
          rw [lexemes_of_literal (numeric _ (List.mem_cons_self ..))
            (hnumbers _ (List.mem_cons_self ..)), hfound]
          rfl
  | operator op _ ih =>
      refine exists_lexemes_cons hmarks (isNumeric_symbol op) (Token.ofChar?_symbol op) hrepeats ?_
      intro later hlater
      exact ih (fun hr => hrepeats (repeatsOperator_cons_iff.mpr (Or.inr hr)))
        (fun run hrun => hnumbers run (List.mem_cons_of_mem _ hrun)) hlater
  | opening _ ih =>
      refine exists_lexemes_cons hmarks rfl rfl hrepeats ?_
      intro later hlater
      exact ih (fun hr => hrepeats (repeatsOperator_cons_iff.mpr (Or.inr hr)))
        (fun run hrun => hnumbers run (List.mem_cons_of_mem _ hrun)) hlater
  | closing _ ih =>
      refine exists_lexemes_cons hmarks rfl rfl hrepeats ?_
      intro later hlater
      exact ih (fun hr => hrepeats (repeatsOperator_cons_iff.mpr (Or.inr hr)))
        (fun run hrun => hnumbers run (List.mem_cons_of_mem _ hrun)) hlater

/-- The cut is found exactly when no operator is repeated and every stretch is a number. -/
theorem exists_lexemes_iff {marks : List Mark} {tokens : List Token} :
    (∃ found, lexemes marks = .ok found ∧ found.map Lexeme.token = tokens) ↔
      IsCut (marks.map Mark.char) tokens ∧ ¬ RepeatsOperator (marks.map Mark.char) ∧
        HasNumbers (marks.map Mark.char) := by
  constructor
  · rintro ⟨found, hfound, rfl⟩
    obtain ⟨hcut, hrepeats, hnumbers⟩ := lexemes_sound hfound
    exact ⟨hcut, hrepeats, hcut.hasNumbers_iff.mpr hnumbers⟩
  · rintro ⟨hcut, hrepeats, hnumbers⟩
    exact lexemes_complete hcut hrepeats (hcut.hasNumbers_iff.mp hnumbers) rfl

end Abacus.Expression
