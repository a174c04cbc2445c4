import Abacus.Proofs.Calculation
import Abacus.Proofs.Expression.Matched

/-!
# Verdict — what the check of an expression says, and in which order

The check looks for four things one after the other and reports the first that it finds.  `IsDue`
says of the text as it was given, white space and all, when each verdict is due; the check answers
with the verdict that is due (`ofText_eq_iff`).  White space is no parenthesis, so it does not matter
that the check drops it before it counts (`isBalanced_written`).
-/

namespace Abacus

namespace Expression

/-- Some beginning of the text closes more parentheses than it opens, or the whole text does not
close just as many as it opens. -/
def IsUnbalanced (text : List Char) : Prop :=
  (∃ start, start <+: text ∧ start.count '(' < start.count ')') ∨
    text.count '(' ≠ text.count ')'

/-- The character is one that an expression is written in: a digit, a point, an operator or a
parenthesis. -/
def IsWritable (c : Char) : Prop :=
  c.isDigit = true ∨ c ∈ ['.', '+', '-', '*', '/', '(', ')']

/-- Dropping white space drops no parenthesis. -/
theorem isBalanced_written (text : String) :
    isBalanced 0 (written text) = isBalanced 0 text.toList := by
  have kept (depth : ℕ) (l : List Char) :
      isBalanced depth (l.filter fun c => !Text.isBlank c) = isBalanced depth l := by
    induction l generalizing depth with
    | nil => rfl
    | cons c rest ih =>
        cases hblank : Text.isBlank c with
        | false =>
            rw [List.filter_cons_of_pos (by simp [hblank]), isBalanced, isBalanced]
            simp only [ih]
        | true =>
            have hopening : c ≠ '(' := by
              rintro rfl
              cases hblank
            have hclosing : c ≠ ')' := by
              rintro rfl
              cases hblank
            rw [List.filter_cons_of_neg (by simp [hblank]), isBalanced_cons hopening hclosing, ih]
  exact kept 0 text.toList

/-- The parentheses that are left after white space has been dropped do not match exactly when the
text is unbalanced. -/
theorem isBalanced_eq_false_iff {text : String} :
    isBalanced 0 (written text) = false ↔ IsUnbalanced text.toList := by
  rw [isBalanced_written, ← Bool.not_eq_true, isBalanced_iff, IsUnbalanced]
  constructor
  · intro h
    by_contra hnone
    rw [not_or, not_exists, not_ne_iff] at hnone
    obtain ⟨hbelow, hclosed⟩ := hnone
    refine h ⟨fun start hstart => ?_, ?_⟩
    · rw [Nat.zero_add]
      exact Nat.le_of_not_lt fun hless => hbelow start ⟨hstart, hless⟩
    · rw [Nat.zero_add]
      exact hclosed.symm
  · rintro (⟨start, hstart, hless⟩ | hne) ⟨hbelow, hclosed⟩
    · have hle := hbelow start hstart
      rw [Nat.zero_add] at hle
      exact absurd hless (Nat.not_lt.mpr hle)
    · rw [Nat.zero_add] at hclosed
      exact hne hclosed.symm

theorem isBalanced_of_not_isUnbalanced {text : String} (h : ¬ IsUnbalanced text.toList) :
    isBalanced 0 (written text) = true := by
  rw [← Bool.not_eq_false]
  exact mt isBalanced_eq_false_iff.mp h

theorem mem_written_iff {text : String} {c : Char} :
    c ∈ written text ↔ c ∈ text.toList ∧ Text.isBlank c = false := by
  rw [written, List.mem_filter, Bool.not_eq_true']

/-- Once there is a character that is not white space, the parentheses are looked at first and the
alphabet after them. -/
theorem objection_of_kept {text : String} (h : ∃ c ∈ text.toList, Text.isBlank c = false) :
    objection text =
      if !isBalanced 0 (written text) then some .unbalanced
      else if !(written text).all isArithmetic then some .foreign
      else none := by
  obtain ⟨c, hc, hkept⟩ := h
  have hempty : ¬ text.isEmpty = true := by
    intro hempty
    rw [String.isEmpty_iff.mp hempty] at hc
    cases hc
  have hwritten : ¬ (written text).isEmpty = true := by
    rw [List.isEmpty_iff]
    exact List.ne_nil_of_mem (mem_written_iff.mpr ⟨hc, hkept⟩)
  rw [objection, ← written, if_neg hempty, if_neg hwritten]

/-- The characters of arithmetic are those that an expression is written in. -/
theorem isArithmetic_iff {c : Char} : isArithmetic c = true ↔ IsWritable c := by
  simp only [IsWritable, isArithmetic, isNumeric, Bool.or_eq_true, beq_iff_eq, List.mem_cons,
    List.not_mem_nil, or_false, or_assoc]

end Expression

namespace Verdict

open Expression (IsUnbalanced IsWritable written)

/-- The verdict that is due to a text: each one where none of the verdicts before it is. -/
inductive IsDue (text : String) : Verdict → Prop where
  | missing : text = "" → IsDue text ⟨false, some "Expression must be a non-empty string"⟩
  | blank : text ≠ "" → (∀ c ∈ text.toList, Text.isBlank c = true) →
      IsDue text ⟨false, some "Expression cannot be empty"⟩
  | unbalanced : (∃ c ∈ text.toList, Text.isBlank c = false) → IsUnbalanced text.toList →
      IsDue text ⟨false, some "Unbalanced parentheses"⟩
  | foreign : (∃ c ∈ text.toList, Text.isBlank c = false) → ¬ IsUnbalanced text.toList →
      (∃ c ∈ text.toList, Text.isBlank c = false ∧ ¬ IsWritable c) →
        IsDue text ⟨false, some "Invalid characters in expression"⟩
  | valid : (∃ c ∈ text.toList, Text.isBlank c = false) → ¬ IsUnbalanced text.toList →
      (∀ c ∈ text.toList, Text.isBlank c = false → IsWritable c) → IsDue text ⟨true, none⟩

/-- Some verdict is due to every text. -/
theorem exists_isDue (text : String) : ∃ verdict, IsDue text verdict := by
  by_cases hempty : text = ""
  · exact ⟨_, .missing hempty⟩
  by_cases hkept : ∃ c ∈ text.toList, Text.isBlank c = false
  · by_cases hunbalanced : IsUnbalanced text.toList
    · exact ⟨_, .unbalanced hkept hunbalanced⟩
    by_cases hforeign : ∃ c ∈ text.toList, Text.isBlank c = false ∧ ¬ IsWritable c
    · exact ⟨_, .foreign hkept hunbalanced hforeign⟩
    · refine ⟨_, .valid hkept hunbalanced fun c hc hnot => ?_⟩
      by_contra hwritable
      exact hforeign ⟨c, hc, hnot, hwritable⟩
  · refine ⟨_, .blank hempty fun c hc => ?_⟩
    rw [← Bool.not_eq_false]
    exact fun hnot => hkept ⟨c, hc, hnot⟩

/-- The check answers with the verdict that is due. -/
theorem IsDue.ofText_eq {text : String} {verdict : Verdict} (h : IsDue text verdict) :
    ofText text = verdict := by
  cases h with
  | missing hempty =>
      subst hempty
      rfl
  | blank hne hblank =>
      have hnone : written text = [] := List.filter_eq_nil_iff.mpr fun c hc => by
        rw [hblank c hc]
        exact Bool.false_ne_true
      rw [ofText, Expression.objection, ← written, hnone, if_neg (mt String.isEmpty_iff.mp hne)]
      rfl
  | unbalanced hkept hunbalanced =>
      rw [ofText, Expression.objection_of_kept hkept,
        Expression.isBalanced_eq_false_iff.mpr hunbalanced]
      rfl
  | foreign hkept hbalanced hforeign =>
      obtain ⟨c, hc, hnot, hwritable⟩ := hforeign
      have hall : (written text).all Expression.isArithmetic = false := by
        rw [List.all_eq_false]
        exact ⟨c, Expression.mem_written_iff.mpr ⟨hc, hnot⟩, mt Expression.isArithmetic_iff.mp hwritable⟩
      rw [ofText, Expression.objection_of_kept hkept,
        Expression.isBalanced_of_not_isUnbalanced hbalanced, hall]
      rfl
  | valid hkept hbalanced hwritable =>
      have hall : (written text).all Expression.isArithmetic = true := by
        rw [List.all_eq_true]
        intro c hc
        obtain ⟨hmem, hnot⟩ := Expression.mem_written_iff.mp hc
        exact Expression.isArithmetic_iff.mpr (hwritable c hmem hnot)
      rw [ofText, Expression.objection_of_kept hkept,
        Expression.isBalanced_of_not_isUnbalanced hbalanced, hall]
      rfl

/-- **The check gives the verdict that is due**, in the order of its four questions: is the text
empty, is it white space, do its parentheses fail to match, and is there a character that is neither
white space nor one that an expression is written in.  The characters alone are in order in just the
texts that are not empty and have no such character. -/
theorem ofText_eq_iff (text : String) :
    (∀ verdict, ofText text = verdict ↔ IsDue text verdict) ∧
      (Expression.hasAllowedCharacters text = true ↔
        text ≠ "" ∧ ∀ c ∈ text.toList, IsWritable c ∨ Text.isBlank c = true) := by
  constructor
  · intro verdict
    constructor
    · rintro rfl
      obtain ⟨verdict, hdue⟩ := exists_isDue text
      rw [hdue.ofText_eq]
      exact hdue
    · exact IsDue.ofText_eq
  · simp only [Expression.hasAllowedCharacters, Expression.isAllowed, Bool.and_eq_true,
      Bool.not_eq_true', List.all_eq_true, Bool.or_eq_true, Expression.isArithmetic_iff]
    rw [← Bool.not_eq_true, String.isEmpty_iff]

/-- A parenthesis is closed before any is opened, and it does not matter that a character in front
of it and one behind it are foreign. -/
example : ofText "a) (b" = ⟨false, some "Unbalanced parentheses"⟩ := by decide

end Verdict

end Abacus
