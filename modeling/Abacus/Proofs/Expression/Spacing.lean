import Abacus.Proofs.Expression.Checked
import Abacus.Proofs.Expression.Place

/-!
# Spacing — white space moves the positions and nothing else

Two texts with the same characters apart from white space have the same marks but for their
positions.  The cut and the readers look at positions only to put them into lexemes and faults.  So
whatever relation holds between the positions of the marks holds between those of the faults
(`lexemes_corresponds`, `read_corresponds`).  With the relation of standing at the same place among
the characters that are written, this is what white space can do (`answers_of_written_eq`).
-/

namespace Abacus.Expression

/-! ## The same but for the positions -/

section Corresponding

variable (same : Nat → Nat → Prop)

/-- The same character, at positions that are related. -/
def Mark.Corresponds (mark mark' : Mark) : Prop :=
  mark.char = mark'.char ∧ same mark.position mark'.position

/-- The same token, at positions that are related. -/
def Lexeme.Corresponds (lexeme lexeme' : Lexeme) : Prop :=
  lexeme.token = lexeme'.token ∧ same lexeme.position lexeme'.position

/-- The position that a fault names. -/
def Fault.position? : Fault → Option Nat
  | .malformed _ position | .unexpected _ position | .emptyGroup position
  | .expectedClosing _ position | .unclosed position => some position
  | .empty | .foreign | .unexpectedEnd | .tooDeep | .notFinite => none

/-- The same fault, at positions that are related if it names one. -/
inductive Fault.Corresponds : Fault → Fault → Prop where
  | malformed (digits : String) {position position' : Nat} : same position position' →
      Corresponds (.malformed digits position) (.malformed digits position')
  | unexpected (found : String) {position position' : Nat} : same position position' →
      Corresponds (.unexpected found position) (.unexpected found position')
  | emptyGroup {position position' : Nat} : same position position' →
      Corresponds (.emptyGroup position) (.emptyGroup position')
  | expectedClosing (found : String) {position position' : Nat} : same position position' →
      Corresponds (.expectedClosing found position) (.expectedClosing found position')
  | unclosed {position position' : Nat} : same position position' →
      Corresponds (.unclosed position) (.unclosed position')
  | placeless {fault : Fault} : fault.position? = none → Corresponds fault fault

/-- What is read, and lexemes left over that are the same but for their positions. -/
def ReadingsCorrespond (reading reading' : Tree × List Lexeme) : Prop :=
  reading.1 = reading'.1 ∧ List.Forall₂ (Lexeme.Corresponds same) reading.2 reading'.2

/-- From lexemes that are the same but for their positions both phrases read the same, or fail
alike. -/
def PhrasesCorrespond (phrase phrase' : Phrase) : Prop :=
  ∀ lexemes lexemes', List.Forall₂ (Lexeme.Corresponds same) lexemes lexemes' →
    AreAlike (Fault.Corresponds same) (ReadingsCorrespond same) (phrase lexemes) (phrase' lexemes')

end Corresponding

/-! ## The cut -/

section Cutting

variable {same : Nat → Nat → Prop} {marks marks' : List Mark}

theorem map_char_corresponds (h : List.Forall₂ (Mark.Corresponds same) marks marks') :
    marks.map Mark.char = marks'.map Mark.char := by
  induction h with
  | nil => rfl
  | cons hmark _ ih => rw [List.map_cons, List.map_cons, hmark.1, ih]

theorem numberAhead_corresponds (h : List.Forall₂ (Mark.Corresponds same) marks marks') :
    numberAhead marks = numberAhead marks' := by
  have takeWhile (marks : List Mark) : numberAhead marks = (marks.map Mark.char).takeWhile isNumeric := by
    rw [List.takeWhile_map]
    rfl
  rw [takeWhile, takeWhile, map_char_corresponds h]

theorem afterNumber_corresponds (h : List.Forall₂ (Mark.Corresponds same) marks marks') :
    List.Forall₂ (Mark.Corresponds same) (afterNumber marks) (afterNumber marks') := by
  induction h with
  | nil => exact .nil
  | @cons mark mark' rest rest' hmark hrest ih =>
      rw [afterNumber, afterNumber, List.dropWhile_cons, List.dropWhile_cons, ← hmark.1]
      split
      · exact ih
      · exact .cons hmark hrest

theorem isDoubled_corresponds (h : List.Forall₂ (Mark.Corresponds same) marks marks') (c : Char) :
    isDoubled c marks = isDoubled c marks' := by
  cases h with
  | nil => rfl
  | cons hmark _ => simp only [isDoubled, List.head?_cons, Option.any_some, hmark.1]

/-- **The cut follows the positions of the marks.** -/
theorem lexemes_corresponds (h : List.Forall₂ (Mark.Corresponds same) marks marks') :
    AreAlike (Fault.Corresponds same) (List.Forall₂ (Lexeme.Corresponds same))
      (lexemes marks) (lexemes marks') := by
  -- by the length: after a number the marks that are left are not the tail
  obtain ⟨bound, hbound⟩ : ∃ bound, marks.length ≤ bound := ⟨_, Nat.le_refl _⟩
  induction bound generalizing marks marks' with
  | zero =>
      obtain rfl := List.eq_nil_of_length_eq_zero (Nat.le_zero.mp hbound)
      cases h
      rw [lexemes]
      exact .ok .nil
  | succ bound ih =>
      cases h with
      | nil =>
          rw [lexemes]
          exact .ok .nil
      | @cons mark mark' rest rest' hmark hrest =>
          have hahead := numberAhead_corresponds hrest
          by_cases hnumeric : isNumeric mark.char = true
          · have hnumeric' : isNumeric mark'.char = true := hmark.1 ▸ hnumeric
            by_cases hliteral : isLiteral (mark.char :: numberAhead rest) = true
            · have hliteral' : isLiteral (mark'.char :: numberAhead rest') = true := by
                rw [← hmark.1, ← hahead]
                exact hliteral
              rw [lexemes_of_literal hnumeric hliteral, lexemes_of_literal hnumeric' hliteral']
              have hlength : (afterNumber rest).length ≤ bound :=
                Nat.le_trans (length_dropWhile_le _ rest) (Nat.le_of_succ_le_succ hbound)
              refine (ih (afterNumber_corresponds hrest) hlength).bind fun hlater => .ok (.cons ?_ hlater)
              exact ⟨by rw [hmark.1, hahead], hmark.2⟩
            · have hliteral' : ¬ isLiteral (mark'.char :: numberAhead rest') = true := by
                rw [← hmark.1, ← hahead]
                exact hliteral
              rw [lexemes_of_not_literal hnumeric hliteral, lexemes_of_not_literal hnumeric' hliteral',
                ← hmark.1, ← hahead]
              exact .error (.malformed _ hmark.2)
          · have hnumeric' : ¬ isNumeric mark'.char = true := hmark.1 ▸ hnumeric
            cases htoken : Token.ofChar? mark.char with
            | none =>
                have htoken' : Token.ofChar? mark'.char = none := hmark.1 ▸ htoken
                rw [lexemes_of_none hnumeric htoken, lexemes_of_none hnumeric' htoken', ← hmark.1]
                exact .error (.unexpected _ hmark.2)
            | some token =>
                have htoken' : Token.ofChar? mark'.char = some token := hmark.1 ▸ htoken
                rw [lexemes_of_some hnumeric htoken, lexemes_of_some hnumeric' htoken', ← hmark.1,
                  ← isDoubled_corresponds hrest]
                split
                · exact .error (.unexpected _ hmark.2)
                · exact (ih hrest (Nat.le_of_succ_le_succ hbound)).bind fun hlater =>
                    .ok (.cons ⟨rfl, hmark.2⟩ hlater)

end Cutting

/-! ## The readers -/

section Readers

variable {same : Nat → Nat → Prop} {joins : Operator → Bool} {phrase phrase' : Phrase}

/-- Whether something is joined on does not depend on where it stands. -/
theorem Stops.corresponds {lexemes lexemes' : List Lexeme} (hstops : Stops joins lexemes)
    (h : List.Forall₂ (Lexeme.Corresponds same) lexemes lexemes') : Stops joins lexemes' := by
  rintro op position' rest' rfl
  obtain ⟨⟨token, position⟩, rest, hlexeme, -, rfl⟩ := List.forall₂_cons_right_iff.mp h
  exact hstops op position rest (by rw [show token = .operator op from hlexeme.1])

theorem chain_corresponds (hphrase : PhrasesCorrespond same phrase phrase') (count : Nat)
    (left : Tree) :
    PhrasesCorrespond same (chain joins phrase count left) (chain joins phrase' count left) := by
  induction count generalizing left with
  | zero =>
      intro lexemes lexemes' h
      rw [chain_zero, chain_zero]
      exact .ok ⟨rfl, h⟩
  | succ count ih =>
      intro lexemes lexemes' h
      rcases stops_or_joins joins lexemes with hstops | ⟨op, position, rest, rfl, hjoins⟩
      · rw [chain_of_stops _ _ hstops, chain_of_stops _ _ (hstops.corresponds h)]
        exact .ok ⟨rfl, h⟩
      · obtain ⟨⟨token', position'⟩, rest', hlexeme, hrest, rfl⟩ := List.forall₂_cons_left_iff.mp h
        obtain rfl : Token.operator op = token' := hlexeme.1
        rw [chain_of_joins _ _ _ _ hjoins, chain_of_joins _ _ _ _ hjoins]
        refine (hphrase _ _ hrest).bind ?_
        rintro ⟨right, after⟩ ⟨right', after'⟩ ⟨hright, hafter⟩
        obtain rfl : right = right' := hright
        exact ih _ _ _ hafter

theorem joinedBy_corresponds (hphrase : PhrasesCorrespond same phrase phrase') (count : Nat) :
    PhrasesCorrespond same (joinedBy joins count phrase) (joinedBy joins count phrase') := by
  intro lexemes lexemes' h
  refine (hphrase _ _ h).bind ?_
  rintro ⟨left, rest⟩ ⟨left', rest'⟩ ⟨hleft, hrest⟩
  obtain rfl : left = left' := hleft
  exact chain_corresponds hphrase count left _ _ hrest

theorem sum_corresponds (hphrase : PhrasesCorrespond same phrase phrase') (count : Nat) :
    PhrasesCorrespond same (sum count phrase) (sum count phrase') :=
  joinedBy_corresponds (joinedBy_corresponds hphrase count) count

theorem group_corresponds (hphrase : PhrasesCorrespond same phrase phrase') (count : Nat)
    {position position' : Nat} (hposition : same position position') :
    PhrasesCorrespond same (group count phrase position) (group count phrase' position') := by
  intro lexemes lexemes' h
  refine (sum_corresponds hphrase count _ _ h).bind ?_
  rintro ⟨inner, rest⟩ ⟨inner', rest'⟩ ⟨hinner, hrest⟩
  obtain rfl : inner = inner' := hinner
  dsimp only at hrest ⊢
  cases hrest with
  | nil => exact .error (.unclosed hposition)
  | @cons found found' later later' hfound hlater =>
      obtain ⟨token, position⟩ := found
      obtain ⟨token', position'⟩ := found'
      obtain ⟨rfl, hclosing⟩ : token = token' ∧ same position position' := hfound
      cases token with
      | number digits => exact .error (.expectedClosing _ hclosing)
      | operator op => exact .error (.expectedClosing _ hclosing)
      | opening => exact .error (.expectedClosing _ hclosing)
      | closing => exact .ok ⟨rfl, hlater⟩

/-- An operand is read alike if the operands inside of it are. -/
theorem operandWithin_corresponds {inner inner' : Option Phrase} (count : Nat)
    (hinner : Option.Rel (PhrasesCorrespond same) inner inner') :
    PhrasesCorrespond same (operandWithin count inner) (operandWithin count inner') := by
  intro lexemes lexemes' h
  cases h with
  | nil => exact .error (.placeless rfl)
  | @cons lexeme lexeme' rest rest' hlexeme hrest =>
      obtain ⟨token, position⟩ := lexeme
      obtain ⟨token', position'⟩ := lexeme'
      obtain ⟨rfl, hposition⟩ : token = token' ∧ same position position' := hlexeme
      cases token with
      | number digits => exact .ok ⟨rfl, hrest⟩
      | operator op =>
          simp only [operandWithin]
          split
          · cases hinner with
            | none => exact .error (.placeless rfl)
            | some hphrase =>
                refine (hphrase _ _ hrest).bind ?_
                rintro ⟨tree, after⟩ ⟨tree', after'⟩ ⟨htree, hafter⟩
                obtain rfl : tree = tree' := htree
                exact .ok ⟨rfl, hafter⟩
          · exact .error (.unexpected _ hposition)
      | opening =>
          have hgroup : AreAlike (Fault.Corresponds same) (ReadingsCorrespond same)
              (inner.elim (.error .tooDeep) fun phrase => group count phrase position rest)
              (inner'.elim (.error .tooDeep) fun phrase' => group count phrase' position' rest') := by
            cases hinner with
            | none => exact .error (.placeless rfl)
            | some hphrase => exact group_corresponds hphrase count hposition _ _ hrest
          cases hrest with
          | nil =>
              rw [operandWithin_group _ _ _ (by simp), operandWithin_group _ _ _ (by simp)]
              exact hgroup
          | @cons next next' _ _ hnext _ =>
              obtain ⟨token, closes⟩ := next
              obtain ⟨token', closes'⟩ := next'
              obtain rfl : token = token' := hnext.1
              by_cases hclosing : token = .closing
              · subst hclosing
                exact .error (.emptyGroup hposition)
              · rw [operandWithin_group _ _ _ (by simp [hclosing]),
                  operandWithin_group _ _ _ (by simp [hclosing])]
                exact hgroup
      | closing => exact .error (.unexpected _ hposition)

theorem operand_corresponds (count nestings : Nat) :
    PhrasesCorrespond same (operand count nestings) (operand count nestings) := by
  induction nestings with
  | zero => exact operandWithin_corresponds count .none
  | succ nestings ih => exact operandWithin_corresponds count (.some ih)

/-- **The reader follows the positions of the lexemes.** -/
theorem read_corresponds {lexemes lexemes' : List Lexeme}
    (h : List.Forall₂ (Lexeme.Corresponds same) lexemes lexemes') :
    AreAlike (Fault.Corresponds same) Eq (read lexemes) (read lexemes') := by
  rw [read, read, ← h.length_eq]
  refine (sum_corresponds (operand_corresponds _ _) _ _ _ h).bind ?_
  rintro ⟨tree, rest⟩ ⟨tree', rest'⟩ ⟨htree, hrest⟩
  obtain rfl : tree = tree' := htree
  dsimp only at hrest ⊢
  cases hrest with
  | nil => exact .ok rfl
  | @cons found found' _ _ hfound _ =>
      obtain ⟨token, position⟩ := found
      obtain ⟨token', position'⟩ := found'
      obtain ⟨rfl, hposition⟩ : token = token' ∧ same position position' := hfound
      exact .error (.unexpected _ hposition)

end Readers

/-! ## The same characters with other white space -/

/-- In both texts the position is that of one and the same character: it is not white space, and so
many of its kind stand before it. -/
def SamePlace (text text' : String) (position position' : Nat) : Prop :=
  ∃ index c, StandsAt text index c position ∧ StandsAt text' index c position'

section Written

variable {text text' : String}

/-- Marks with the same characters, after equally many others, stand at the same places. -/
theorem marks_correspond_from {earlier earlier' later later' : List Mark}
    (h : marks text = earlier ++ later) (h' : marks text' = earlier' ++ later')
    (hlength : earlier.length = earlier'.length)
    (hchars : later.map Mark.char = later'.map Mark.char) :
    List.Forall₂ (Mark.Corresponds (SamePlace text text')) later later' := by
  induction later generalizing earlier earlier' later' with
  | nil =>
      obtain rfl := List.map_eq_nil_iff.mp hchars.symm
      exact .nil
  | cons mark later ih =>
      cases later' with
      | nil => exact nomatch hchars
      | cons mark' later' =>
          obtain ⟨hchar, hrest⟩ := List.cons.inj hchars
          have hplace := standsAt_of_marks h
          have hplace' := standsAt_of_marks h'
          rw [← hlength, ← hchar] at hplace'
          refine .cons ⟨hchar, _, _, hplace, hplace'⟩ ?_
          have hnext : marks text = (earlier ++ [mark]) ++ later := by
            rw [h, List.append_assoc, List.singleton_append]
          have hnext' : marks text' = (earlier' ++ [mark']) ++ later' := by
            rw [h', List.append_assoc, List.singleton_append]
          refine ih hnext hnext' ?_ hrest
          rw [List.length_append, List.length_append, hlength, List.length_singleton,
            List.length_singleton]

/-- The marks of the two texts stand at the same places. -/
theorem marks_correspond (h : written text = written text') :
    List.Forall₂ (Mark.Corresponds (SamePlace text text')) (marks text) (marks text') := by
  refine marks_correspond_from (List.nil_append _).symm (List.nil_append _).symm rfl ?_
  rw [map_char_marks, map_char_marks]
  exact h

theorem hasAllowedCharacters_of_written_eq (h : written text = written text')
    (hmarks : (marks text).isEmpty = false) :
    hasAllowedCharacters text = hasAllowedCharacters text' := by
  have hmarks' : (marks text').isEmpty = false := by
    rw [isEmpty_marks, ← h, ← isEmpty_marks]
    exact hmarks
  rw [Bool.eq_iff_iff, hasAllowedCharacters_iff_written hmarks,
    hasAllowedCharacters_iff_written hmarks', h]

theorem parse_corresponds (h : written text = written text') :
    AreAlike (Fault.Corresponds (SamePlace text text')) Eq (parse text) (parse text') := by
  have hempty' : (marks text').isEmpty = (marks text).isEmpty := by
    rw [isEmpty_marks, isEmpty_marks, h]
  rw [parse, parse, hempty']
  cases hempty : (marks text).isEmpty with
  | true => exact .error (.placeless rfl)
  | false =>
      rw [← hasAllowedCharacters_of_written_eq h hempty]
      cases hasAllowedCharacters text with
      | false => exact .error (.placeless rfl)
      | true => exact (lexemes_corresponds (marks_correspond h)).bind read_corresponds

theorem evaluate_corresponds (h : written text = written text') :
    AreAlike (Fault.Corresponds (SamePlace text text')) Eq (evaluate text) (evaluate text') := by
  refine (parse_corresponds h).bind ?_
  rintro tree _ rfl
  dsimp only
  split
  · exact .ok rfl
  · exact .error (.placeless rfl)

/-- What is found to object to a text in which something is written is found in what is written. -/
theorem objection_of_written_eq (h : written text = written text') (hne : written text ≠ []) :
    objection text = objection text' := by
  have notEmpty {text : String} (hne : written text ≠ []) : text.isEmpty = false := by
    refine Bool.eq_false_iff.mpr fun hempty => hne ?_
    rw [String.isEmpty_iff.mp hempty]
    rfl
  rw [objection, objection, notEmpty hne, notEmpty (h ▸ hne), ← written, ← written, h]

end Written

/-- The position at the end of the wording of a fault, if it names one. -/
def Fault.place (fault : Fault) : String :=
  fault.position?.elim "" toString

/-- Faults that correspond are worded alike up to the position. -/
theorem Fault.Corresponds.exists_words {same : Nat → Nat → Prop} {fault fault' : Fault}
    (h : Fault.Corresponds same fault fault') :
    ∃ words, fault.message = words ++ fault.place ∧ fault'.message = words ++ fault'.place := by
  have worded (words : String) (position : Nat) :
      "Expression evaluation failed: " ++ (words ++ toString position) =
        "Expression evaluation failed: " ++ words ++ toString position :=
    (String.append_assoc ..).symm
  cases h with
  | malformed digits _ => exact ⟨_, worded _ _, worded _ _⟩
  | unexpected found _ => exact ⟨_, worded _ _, worded _ _⟩
  | emptyGroup _ => exact ⟨_, worded _ _, worded _ _⟩
  | expectedClosing found _ => exact ⟨_, worded _ _, worded _ _⟩
  | unclosed _ => exact ⟨_, worded _ _, worded _ _⟩
  | placeless hnone =>
      refine ⟨fault.message, ?_, ?_⟩
      all_goals rw [Fault.place, hnone, Option.elim_none, String.append_empty]

/-- **White space is insignificant.**  Texts with the same characters apart from white space, of
which there is at least one, pass the check alike or meet the same objection; and they have the same
value, or the same fault, worded alike up to the position of one and the same character. -/
theorem answers_of_written_eq {text text' : String} (hsame : written text = written text')
    (hne : written text ≠ []) :
    Verdict.ofText text = Verdict.ofText text' ∧
      ((∃ value, computeExpression text = .ok value ∧ computeExpression text' = .ok value) ∨
        ∃ fault fault' words, evaluate text = .error fault ∧ evaluate text' = .error fault' ∧
          Fault.Corresponds (SamePlace text text') fault fault' ∧
          computeExpression text = .error (.evaluation (words ++ fault.place)) ∧
          computeExpression text' = .error (.evaluation (words ++ fault'.place))) := by
  refine ⟨by rw [Verdict.ofText, Verdict.ofText, objection_of_written_eq hsame hne], ?_⟩
  have halike := evaluate_corresponds hsame
  rw [computeExpression, computeExpression]
  generalize evaluate text = answer at halike ⊢
  generalize evaluate text' = answer' at halike ⊢
  cases halike with
  | ok hvalue =>
      obtain rfl := hvalue
      exact Or.inl ⟨_, rfl, rfl⟩
  | @error fault fault' hfault =>
      obtain ⟨words, hwords, hwords'⟩ := hfault.exists_words
      refine Or.inr ⟨fault, fault', words, rfl, rfl, hfault, ?_, ?_⟩
      · rw [← hwords]
        rfl
      · rw [← hwords']
        rfl

/-- A wide space inside of a number and narrow ones after it move the position of the parenthesis,
which is the fourth character in both texts. -/
theorem answers_of_written_eq_spaced :
    written "1\u20032 * )" = written "12*)" ∧ written "1\u20032 * )" ≠ [] ∧
      evaluate "1\u20032 * )" = .error (.unexpected ")" 8) ∧
      evaluate "12*)" = .error (.unexpected ")" 3) ∧
      SamePlace "1\u20032 * )" "12*)" 8 3 := by
  have hsame : written "1\u20032 * )" = written "12*)" := by decide +kernel
  have hne : written "1\u20032 * )" ≠ [] := by decide +kernel
  have hspaced : evaluate "1\u20032 * )" = .error (.unexpected ")" 8) := by decide +kernel
  have hplain : evaluate "12*)" = .error (.unexpected ")" 3) := by decide +kernel
  refine ⟨hsame, hne, hspaced, hplain, ?_⟩
  rcases (answers_of_written_eq hsame hne).2 with ⟨value, hvalue, -⟩ |
    ⟨fault, fault', -, hfault, hfault', hcorresponds, -, -⟩
  · rw [computeExpression, hspaced] at hvalue
    cases hvalue
  · obtain rfl := Except.error.inj (hspaced.symm.trans hfault)
    obtain rfl := Except.error.inj (hplain.symm.trans hfault')
    cases hcorresponds with
    | unexpected _ hplace => exact hplace

end Abacus.Expression
