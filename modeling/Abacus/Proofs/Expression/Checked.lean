import Abacus.Proofs.Calculation
import Abacus.Proofs.Expression.Halt

/-!
# Checked — what can still go wrong with an expression that passed the check

The check looks at the text, counts parentheses and compares characters; the evaluation cuts, reads
and computes.  What the check has made sure of the evaluation need not find out: there is something
to read, each character is one of a token, and no parenthesis is left over or missing.  So the
faults that say otherwise do not occur (`computeExpression_of_checked`).
-/

namespace Abacus.Expression

/-! ## What the cut says of the characters -/

/-- A character of arithmetic is a character of a number or a token of its own. -/
theorem exists_ofChar?_of_isArithmetic {c : Char} (h : isArithmetic c = true)
    (hnumeric : ¬ isNumeric c = true) : ∃ token, Token.ofChar? c = some token := by
  simp only [isArithmetic, Bool.or_eq_true, beq_iff_eq, or_assoc] at h
  rcases h with h | rfl | rfl | rfl | rfl | rfl | rfl
  · exact absurd h hnumeric
  all_goals exact ⟨_, rfl⟩

/-- How the cut fails: at a stretch that is no number, at an operator twice in a row, or at a
character that has no meaning in arithmetic. -/
inductive IsUncut (marks : List Mark) : Fault → Prop where
  | malformed (digits : String) (position : Nat) : IsUncut marks (.malformed digits position)
  | doubled (c : Char) (position : Nat) :
      IsUncut marks (.unexpected (String.ofList [c, c]) position)
  | foreign {mark : Mark} : mark ∈ marks → isArithmetic mark.char = false →
      IsUncut marks (.unexpected (String.singleton mark.char) mark.position)

theorem IsUncut.mono {marks more : List Mark} {fault : Fault} (h : IsUncut marks fault)
    (hsub : marks ⊆ more) : IsUncut more fault := by
  cases h with
  | malformed digits position => exact .malformed digits position
  | doubled c position => exact .doubled c position
  | foreign hmark harithmetic => exact .foreign (hsub hmark) harithmetic

theorem isUncut_of_lexemes {marks : List Mark} {fault : Fault} (h : lexemes marks = .error fault) :
    IsUncut marks fault := by
  fun_induction lexemes marks with
  | case1 => cases h
  | case2 mark rest hnumeric digits hliteral =>
      next ih =>
      rcases bind_eq_error_iff.mp h with hlater | ⟨later, -, hfound⟩
      · exact (ih hlater).mono fun next hnext =>
          List.mem_cons_of_mem _ ((List.dropWhile_sublist _).subset hnext)
      · cases hfound
  | case3 =>
      obtain rfl := Except.error.inj h
      exact .malformed _ _
  | case4 mark rest hnumeric hnone =>
      obtain rfl := Except.error.inj h
      refine .foreign (List.mem_cons_self ..) (Bool.eq_false_iff.mpr ?_)
      intro harithmetic
      obtain ⟨token, htoken⟩ := exists_ofChar?_of_isArithmetic harithmetic hnumeric
      cases hnone.symm.trans htoken
  | case5 =>
      obtain rfl := Except.error.inj h
      exact .doubled _ _
  | case6 mark rest hnumeric token htoken hdoubled ih =>
      rcases bind_eq_error_iff.mp h with hlater | ⟨later, -, hfound⟩
      · exact (ih hlater).mono (List.subset_cons_self ..)
      · cases hfound

/-! ## What the balance says of the reading -/

/-- The tokens of a balanced text are balanced. -/
theorem areBalanced_of_lexemes {text : String} {found : List Lexeme}
    (hcut : lexemes (marks text) = .ok found) (h : isBalanced 0 (written text) = true) :
    areBalanced 0 (found.map Lexeme.token) = true := by
  obtain ⟨hcut, -, -⟩ := lexemes_sound hcut
  rw [← hcut.isBalanced_eq, map_char_marks]
  exact h

/-- Where balanced tokens end, no group is open. -/
theorem Leads.groups_eq_nil {limit : Nat} {tokens : List Token} {last : Standing}
    (h : Leads limit .start tokens last) (hbalanced : areBalanced 0 tokens = true) :
    last.groups = [] := by
  have hrest := h.areBalanced_append []
  rw [List.append_nil, show areBalanced Standing.start.groups.length tokens = true from hbalanced]
    at hrest
  -- nothing comes after the tokens, so nothing is left to be closed
  rw [areBalanced] at hrest
  exact List.eq_nil_of_length_eq_zero (eq_of_beq hrest.symm)

/-- **A sum of balanced tokens is not followed by a closing parenthesis.** -/
theorem sum_ne_closing {found rest : List Lexeme} {tree : Tree} {position : Nat}
    (hbalanced : areBalanced 0 (found.map Lexeme.token) = true) :
    sum found.length (operand found.length nestingLimit) found ≠
      .ok (tree, ⟨.closing, position⟩ :: rest) := by
  intro h
  obtain ⟨used, hused, hsum⟩ := sum_sound (operand_sound _ _) _ h
  rw [hused, List.map_append, hsum.closes] at hbalanced
  exact Bool.false_ne_true hbalanced

/-- A token that neither joins on nor closes is a number or opens a group. -/
theorem Token.number_or_opening {token : Token} (hop : ∀ op, token ≠ .operator op)
    (hclosing : token ≠ .closing) : (∃ digits, token = .number digits) ∨ token = .opening := by
  cases token with
  | number digits => exact Or.inl ⟨digits, rfl⟩
  | operator op => exact absurd rfl (hop op)
  | opening => exact Or.inr rfl
  | closing => exact absurd rfl hclosing

/-- The words and the position are those of a lexeme that is a number or opens a group. -/
def FindsOperand (found : List Lexeme) (words : String) (position : Nat) : Prop :=
  ∃ lexeme ∈ found, lexeme.position = position ∧ lexeme.token.text = words ∧
    ((∃ digits, lexeme.token = .number digits) ∨ lexeme.token = .opening)

/-- A reading of balanced tokens does not halt where a group is left open, nor before a parenthesis
that closes none. -/
theorem Halts.of_balanced {limit : Nat} {found : List Lexeme} {fault : Fault}
    (h : Halts limit .start found fault)
    (hbalanced : areBalanced 0 (found.map Lexeme.token) = true) :
    fault ≠ .empty ∧ fault ≠ .foreign ∧ (∀ position, fault ≠ .unclosed position) ∧
      ∀ words position, fault = .expectedClosing words position →
        FindsOperand found words position := by
  cases h with
  | unexpected _ _ => exact ⟨nofun, nofun, nofun, nofun⟩
  | leftOver _ _ => exact ⟨nofun, nofun, nofun, nofun⟩
  | @expectedClosing before after lexeme _ _ hleads hop hclosing =>
      refine ⟨nofun, nofun, nofun, ?_⟩
      intro words position hfault
      obtain ⟨rfl, rfl⟩ := Fault.expectedClosing.inj hfault
      exact ⟨lexeme, by simp, rfl, rfl, Token.number_or_opening hop hclosing⟩
  | emptyGroup _ => exact ⟨nofun, nofun, nofun, nofun⟩
  | unexpectedEnd _ => exact ⟨nofun, nofun, nofun, nofun⟩
  | unclosed hleads => exact nomatch hleads.groups_eq_nil hbalanced
  | tooDeep _ _ _ => exact ⟨nofun, nofun, nofun, nofun⟩

/-! ## After the check -/

section Checked

variable {text : String}

/-- A text of arithmetic characters is cut unless a number or an operator is malformed. -/
theorem lexemes_ne_foreign (harithmetic : ∀ c ∈ written text, isArithmetic c = true) (c : Char)
    (position : Nat) :
    lexemes (marks text) ≠ .error (.unexpected (String.singleton c) position) := by
  intro huncut
  generalize hfault : Fault.unexpected (String.singleton c) position = fault at huncut
  cases isUncut_of_lexemes huncut with
  | malformed _ _ => exact nomatch hfault
  | doubled d _ =>
      -- the words of a repeated operator are two characters
      have hwords := congrArg String.toList (Fault.unexpected.inj hfault).1
      simp at hwords
  | @foreign mark hmem hforeign =>
      have hchar : mark.char ∈ (marks text).map Mark.char := List.mem_map_of_mem hmem
      rw [map_char_marks] at hchar
      exact nomatch (harithmetic _ hchar).symm.trans hforeign

/-- Of the faults of evaluation these are left: there is something to read, no character is foreign, no
group is left open, and where one ought to be closed a number or another group was found. -/
structure IsLeft (text : String) (fault : Fault) : Prop where
  notEmpty : fault ≠ .empty
  notForeign : fault ≠ .foreign
  notUnclosed : ∀ position, fault ≠ .unclosed position
  expected : ∀ words position, fault = .expectedClosing words position →
    ∃ found, lexemes (marks text) = .ok found ∧ FindsOperand found words position

theorem isLeft_of_checked {fault : Fault} (hvalid : objection text = none)
    (h : evaluate text = .error fault) : IsLeft text fault := by
  obtain ⟨hne, hbalanced, harithmetic⟩ := objection_eq_none_iff.mp hvalid
  have hmarks : (marks text).isEmpty = false := by
    rw [isEmpty_marks, List.isEmpty_eq_false_iff]
    exact hne
  have hallowed := (hasAllowedCharacters_iff_written hmarks).mpr harithmetic
  cases evaluate_eq_error_iff.mp h with
  | empty hempty => exact nomatch hmarks.symm.trans hempty
  | foreign _ hforeign => exact nomatch hallowed.symm.trans hforeign
  | uncut _ _ huncut =>
      cases isUncut_of_lexemes huncut with
      | malformed _ _ => exact ⟨nofun, nofun, nofun, nofun⟩
      | doubled _ _ => exact ⟨nofun, nofun, nofun, nofun⟩
      | foreign _ _ => exact ⟨nofun, nofun, nofun, nofun⟩
  | unread _ _ hcut hread =>
      obtain ⟨hempty, hforeign, hunclosed, hexpected⟩ :=
        (halts_of_read hread).of_balanced (areBalanced_of_lexemes hcut hbalanced)
      exact ⟨hempty, hforeign, hunclosed, fun _ _ heq => ⟨_, hcut, hexpected _ _ heq⟩⟩
  | notFinite _ _ => exact ⟨nofun, nofun, nofun, nofun⟩

end Checked

/-- **After the check these faults do not occur**: that there is nothing to read, that a character
is foreign, to the text or to the tokens, that a group is not closed, and that a parenthesis is
left over.  Where a closing parenthesis is expected, a number or an opening one was found. -/
theorem computeExpression_of_checked {text : String}
    (h : (Verdict.ofText text).isValid = true) :
    (∀ refusal, computeExpression text = .error refusal → ∃ fault,
      evaluate text = .error fault ∧ refusal = .evaluation fault.message ∧ IsLeft text fault) ∧
    (∀ c position, lexemes (marks text) ≠ .error (.unexpected (String.singleton c) position)) ∧
    ∀ found tree position rest, lexemes (marks text) = .ok found →
      sum found.length (operand found.length nestingLimit) found ≠
        .ok (tree, ⟨.closing, position⟩ :: rest) := by
  have hvalid := objection_of_isValid h
  obtain ⟨-, hbalanced, harithmetic⟩ := objection_eq_none_iff.mp hvalid
  refine ⟨?_, lexemes_ne_foreign harithmetic, ?_⟩
  · intro refusal hrefused
    obtain ⟨fault, hfault, rfl⟩ := mapError_eq_error_iff.mp hrefused
    exact ⟨fault, hfault, rfl, isLeft_of_checked hvalid hfault⟩
  · intro found tree position rest hcut
    exact sum_ne_closing (areBalanced_of_lexemes hcut hbalanced)

/-- The parentheses are balanced, and where the group ought to be closed another one opens. -/
theorem computeExpression_of_checked_second_group :
    (Verdict.ofText "(1 (2))").isValid = true ∧
      evaluate "(1 (2))" = .error (.expectedClosing "(" 3) ∧
        IsLeft "(1 (2))" (.expectedClosing "(" 3) := by
  have hvalid : (Verdict.ofText "(1 (2))").isValid = true := by decide +kernel
  have hfault : evaluate "(1 (2))" = .error (.expectedClosing "(" 3) := by decide +kernel
  obtain ⟨fault, hother, -, hleft⟩ :=
    (computeExpression_of_checked hvalid).1 _ (mapError_eq_error_iff.mpr ⟨_, hfault, rfl⟩)
  obtain rfl := Except.error.inj (hfault.symm.trans hother)
  exact ⟨hvalid, hfault, hleft⟩

end Abacus.Expression
