import Abacus.Proofs.Calculation
import Abacus.Proofs.Decimal.Numeral
import Abacus.Proofs.Double.Value
import Abacus.Proofs.Wire.Records

/-!
# Label — the call of a function is told by its label

A label is the name as it was sent, and in parentheses one number, or two with a comma between them.  A
name has letters only and none of the marks is in a number, so each part ends where its mark begins.  And
a double is told by its plain text (`Double.eq_of_plain`): that of a finite one is a numeral of its
shortest decimal, which is nearest to no other magnitude, and what is not finite has a word of its own.
So two calls that pass the check have one label only if they are the same call (`call_eq_of_label`).
-/

namespace Abacus

open Decimal (IsPart)

/-! ## Plain texts -/

namespace Double

/-- The doubles that are not finite, each with a word of its own. -/
def others : List Double :=
  [.nan, .infinite false, .infinite true]

theorem mem_others {x : Double} (h : x.isFinite = false) : x ∈ others := by
  cases x with
  | nan => decide
  | infinite negative => cases negative <;> decide
  | finite negative m => exact nomatch h

/-- A word is not the text of a number: it has a letter that is in none. -/
theorem isFinite_of_plain {x y : Double} (h : x.plain = y.plain) (hx : x.isFinite = true) :
    y.isFinite = true := by
  cases x with
  | nan => exact nomatch hx
  | infinite negative => exact nomatch hx
  | finite negative m =>
      by_contra hy
      have hletter : ∀ y ∈ others, 'N' ∈ y.plain.toList ∨ 'i' ∈ y.plain.toList := by decide
      have hpart := areParts_plain negative m
      rw [h] at hpart
      rcases hletter y (mem_others (Bool.not_eq_true _ ▸ hy)) with hmem | hmem
      · exact absurd (hpart _ hmem) (by decide)
      · exact absurd (hpart _ hmem) (by decide)

/-- **A double is told by its plain text.** -/
theorem eq_of_plain {x y : Double} (h : x.plain = y.plain) : x = y := by
  cases hx : x.isFinite with
  | true =>
      have hy := isFinite_of_plain h hx
      obtain ⟨negative, m, rfl⟩ := exists_eq_finite hx
      obtain ⟨negative', m', rfl⟩ := exists_eq_finite hy
      have hplain := denotes_plain negative m
      rw [h] at hplain
      exact Decimal.finite_eq_of_denotes hplain (denotes_plain negative' m')
  | false =>
      have hy : y.isFinite = false := by
        by_contra hy
        rw [isFinite_of_plain h.symm (Bool.not_eq_false _ ▸ hy)] at hx
        exact nomatch hx
      have hwords : ∀ x ∈ others, ∀ y ∈ others, x.plain = y.plain → x = y := by decide
      exact hwords x (mem_others hx) y (mem_others hy) h

end Double

/-! ## Labels -/

/-- The check does not refuse the request. -/
def Request.IsAccepted (request : Request) : Prop :=
  ∀ refusal, request.calculate ≠ .error (.invalid refusal)

/-- The call of a function passes the check if it names one and its value is finite; a second value may
be anything. -/
theorem Request.isAccepted_scientific_iff {value : Double} {operation : String}
    {second : Option Double} :
    (Request.scientific value operation second).IsAccepted ↔
      value.isFinite = true ∧ ∃ f : Function, f.IsNamed operation := by
  constructor
  · intro h
    have hvalue : value.isFinite = true := by
      by_contra hvalue
      exact h _ (calculate_of_not_isFinite (Bool.eq_false_iff.mpr hvalue))
    refine ⟨hvalue, ?_⟩
    by_contra hnone
    exact h _ (calculate_of_not_isNamed hvalue (not_exists.mp hnone))
  · rintro ⟨hvalue, f, hf⟩ refusal h
    cases calculate_scientific_eq_error_iff.mp h with
    | notFinite hnot => exact nomatch hvalue.symm.trans hnot
    | unsupported _ hnone => exact hnone f hf

namespace Calculation

/-- The marks behind the first number of a label. -/
def marks : List Char :=
  [',', ')']

theorem not_mem_marks_of_mem_plain {x : Double} {c : Char} (h : c ∈ x.plain.toList) : c ∉ marks := by
  intro hmark
  have hother : ∀ c ∈ marks, ¬ IsPart c ∧ c ∉ Double.wordLetters :=
    List.forall_mem_cons.mpr ⟨by decide, List.forall_mem_singleton.mpr (by decide)⟩
  exact Double.not_mem_plain (hother c hmark).1 (hother c hmark).2 x h

/-- What stands behind the first number of a label. -/
def labelEnd : Option Double → List Char
  | none => [')']
  | some second => ',' :: ' ' :: (second.plain.toList ++ [')'])

theorem exists_mark_labelEnd (second : Option Double) :
    ∃ c ∈ (labelEnd second).head?, ¬ c ∉ marks := by
  cases second with
  | none => exact ⟨')', rfl, by decide⟩
  | some x => exact ⟨',', rfl, by decide⟩

theorem toList_label (operation : String) (value : Double) (second : Option Double) :
    (label operation value second).toList =
      operation.toList ++ '(' :: (value.plain.toList ++ labelEnd second) := by
  cases second <;> simp [label, labelEnd]

/-- The second number is told by the end of the label. -/
theorem eq_of_labelEnd {second second' : Option Double} (h : labelEnd second = labelEnd second') :
    second = second' := by
  cases second with
  | none =>
      cases second' with
      | none => rfl
      | some y => exact nomatch h
  | some x =>
      cases second' with
      | none => exact nomatch h
      | some y =>
          have hplain : x.plain.toList ++ [')'] = y.plain.toList ++ [')'] := by
            simpa [labelEnd] using h
          have hsame := Double.eq_of_plain (String.toList_injective (List.append_cancel_right hplain))
          exact congrArg some hsame

/-- **The label determines the call**: of two calls that pass the check and have the same label, the
names are the same letter by letter, the values are the same double with its sign, and so are the second
values, if there are any. -/
theorem call_eq_of_label {operation operation' : String} {value value' : Double}
    {second second' : Option Double} (h : (Request.scientific value operation second).IsAccepted)
    (h' : (Request.scientific value' operation' second').IsAccepted)
    (hlabel : label operation value second = label operation' value' second') :
    operation = operation' ∧ value = value' ∧ second = second' := by
  obtain ⟨-, f, hf⟩ := Request.isAccepted_scientific_iff.mp h
  obtain ⟨-, f', hf'⟩ := Request.isAccepted_scientific_iff.mp h'
  have hchars := congrArg String.toList hlabel
  rw [toList_label, toList_label] at hchars
  obtain ⟨hname, hrest⟩ := append_inj_of_ends (fun _ => hf.isAlpha_of_mem)
    (fun _ => hf'.isAlpha_of_mem) ⟨'(', rfl, by decide⟩ ⟨'(', rfl, by decide⟩ hchars
  obtain ⟨hplain, hend⟩ := append_inj_of_ends (fun _ hc => not_mem_marks_of_mem_plain hc)
    (fun _ hc => not_mem_marks_of_mem_plain hc) (exists_mark_labelEnd second)
    (exists_mark_labelEnd second') (List.cons.inj hrest).2
  exact ⟨String.toList_injective hname, Double.eq_of_plain (String.toList_injective hplain),
    eq_of_labelEnd hend⟩

/-- A power of minus zero in mixed letters, whose value is read off its label, and which has another
label than the power of zero. -/
theorem call_eq_of_label_minus_zero :
    let read := (Number.parse "-0").getD .nan
    (Request.scientific (.zero true) "PoW" (some .nan)).IsAccepted ∧
      (Request.scientific read "PoW" (some .nan)).IsAccepted ∧
      label "PoW" (.zero true) (some .nan) = "PoW(-0, NaN)" ∧
      label "PoW" read (some .nan) = "PoW(-0, NaN)" ∧
      ("PoW" = "PoW" ∧ .zero true = read ∧ some Double.nan = some .nan) ∧
      label "PoW" (.zero true) (some .nan) ≠ label "PoW" (.zero false) (some .nan) := by
  intro read
  have hname : ∃ f : Function, f.IsNamed "PoW" :=
    ⟨.pow, Function.ofName?_eq_some_iff.mp (by decide)⟩
  have hminus : (Request.scientific (.zero true) "PoW" (some .nan)).IsAccepted :=
    Request.isAccepted_scientific_iff.mpr ⟨rfl, hname⟩
  have hplus : (Request.scientific (.zero false) "PoW" (some .nan)).IsAccepted :=
    Request.isAccepted_scientific_iff.mpr ⟨rfl, hname⟩
  have hread : (Request.scientific read "PoW" (some .nan)).IsAccepted :=
    Request.isAccepted_scientific_iff.mpr ⟨by decide +kernel, hname⟩
  have hlabel : label "PoW" (.zero true) (some .nan) = "PoW(-0, NaN)" := by decide +kernel
  have hsame : label "PoW" read (some .nan) = "PoW(-0, NaN)" := by decide +kernel
  refine ⟨hminus, hread, hlabel, hsame, call_eq_of_label hminus hread (hlabel.trans hsame.symm), ?_⟩
  intro heq
  exact absurd (call_eq_of_label hminus hplus heq).2.1 (by decide)

end Calculation

end Abacus
