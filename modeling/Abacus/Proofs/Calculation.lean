import Abacus.Proofs.Expression.Balance
import Abacus.Proofs.Expression.Meaning
import Abacus.Proofs.Function
import Abacus.Service

/-!
# Calculation — the check refuses nothing that has a value

An expression is checked for its form before it is evaluated, by rules of its own.  A text that
denotes a value passes the check (`objection_eq_none`), so a calculation succeeds exactly when the
evaluation does, and the check only decides how a failure is reported
(`calculate_expression_iff`).

The call of a function is checked too, and what the check refuses the function would refuse as well.
So of the refusals of a function only its own remain (`calculate_scientific_eq_error_iff`).
-/

namespace Abacus

/-! ## The check of a text that denotes a value -/

namespace Expression

/-- There is no objection to a text with balanced parentheses and arithmetic characters only, of
which there is at least one. -/
theorem objection_eq_none_iff {text : String} :
    objection text = none ↔ written text ≠ [] ∧ isBalanced 0 (written text) = true ∧
      ∀ c ∈ written text, isArithmetic c = true := by
  rw [objection, ← written, ← List.all_eq_true]
  by_cases hempty : text.isEmpty = true
  · have hnone : written text = [] := by
      rw [String.isEmpty_iff.mp hempty]
      rfl
    rw [if_pos hempty, hnone]
    simp
  · rw [if_neg hempty]
    cases hkept : (written text).isEmpty with
    | true => simp [List.isEmpty_iff.mp hkept]
    | false =>
        have hne : written text ≠ [] := by
          rw [← List.isEmpty_eq_false_iff]
          exact hkept
        cases isBalanced 0 (written text) <;> cases (written text).all isArithmetic <;> simp [hne]

/-- The allowed characters that are not white space have a meaning in arithmetic. -/
theorem Denotes.isArithmetic {text : String} {value : Double} (h : Denotes text value) {c : Char}
    (hc : c ∈ written text) : isArithmetic c = true := by
  obtain ⟨hmem, hkept⟩ := List.mem_filter.mp hc
  exact isArithmetic_of_isAllowed (isAllowed_iff.mpr (h.allowed c hmem))
    (by simpa using hkept)

/-- **A text that denotes a value passes the check.** -/
theorem Denotes.objection_eq_none {text : String} {value : Double} (h : Denotes text value) :
    objection text = none := by
  obtain ⟨c, hc, hblank⟩ := h.notBlank
  have hmem : c ∈ written text := List.mem_filter.mpr ⟨hc, by rw [hblank]; rfl⟩
  obtain ⟨tokens, hcut, hderived⟩ := h.derived
  obtain ⟨tree, hsum, -⟩ := hderived.exists_tree
  exact objection_eq_none_iff.mpr
    ⟨List.ne_nil_of_mem hmem, hcut.isBalanced hsum, fun c hc => h.isArithmetic hc⟩

/-- An outcome that is valid is that of a text without objection. -/
theorem objection_of_isValid {text : String} (h : (Verdict.ofText text).isValid = true) :
    objection text = none := by
  rw [Verdict.ofText] at h
  cases hobjection : objection text with
  | none => rfl
  | some found =>
      rw [hobjection] at h
      exact nomatch h

end Expression

/-- An expression that is evaluated passes the check. -/
theorem Verdict.isValid_of_computeExpression {text : String} {value : Double}
    (h : computeExpression text = .ok value) : (Verdict.ofText text).isValid = true := by
  have hdenotes := Expression.evaluate_eq_ok_iff_denotes.mp (mapError_eq_ok_iff.mp h)
  rw [Verdict.ofText, hdenotes.objection_eq_none]

/-! ## The calculation -/

/-- A text has a value and makes a calculation, or the check refuses it, or it passes the check and
the evaluation says what is wrong with it. -/
theorem Request.calculate_cases (text : String) (mode : Mode) :
    (∃ value, computeExpression text = .ok value ∧
        calculate (.expression text mode) = .ok (.ofResult text value mode)) ∨
      (∃ refusal, (Verdict.ofText text).isValid = false ∧
        (Verdict.ofText text).toResult = .error refusal ∧
          calculate (.expression text mode) = .error (.invalid refusal)) ∨
      ∃ refusal, (Verdict.ofText text).isValid = true ∧
        computeExpression text = .error refusal ∧
          calculate (.expression text mode) = .error (.calculation refusal) := by
  rw [calculate, Verdict.toResult]
  cases hvalid : (Verdict.ofText text).isValid with
  | false => exact Or.inr (Or.inl ⟨_, rfl, rfl, rfl⟩)
  | true =>
      cases computeExpression text with
      | ok value => exact Or.inl ⟨value, rfl, rfl⟩
      | error refusal => exact Or.inr (Or.inr ⟨refusal, rfl, rfl, rfl⟩)

/-- A calculation that fails is the fault of the one who asked. -/
theorem Request.isClientError_of_calculate {request : Request} {failure : Failure}
    (h : request.calculate = .error failure) : failure.isClientError = true := by
  cases request with
  | expression text mode =>
      rcases calculate_cases text mode with ⟨value, -, hanswer⟩ | ⟨refusal, -, -, hanswer⟩ |
        ⟨refusal, -, -, hanswer⟩
      · exact nomatch hanswer.symm.trans h
      · obtain rfl := Except.error.inj (hanswer.symm.trans h)
        rfl
      · obtain rfl := Except.error.inj (hanswer.symm.trans h)
        rfl
  | scientific value operation second =>
      rw [calculate] at h
      split at h
      · obtain rfl := Except.error.inj h
        rfl
      split at h
      · obtain rfl := Except.error.inj h
        rfl
      cases hresult : computeFunction value operation second with
      | ok result =>
          rw [hresult] at h
          exact nomatch h
      | error refusal =>
          rw [hresult] at h
          obtain rfl := Except.error.inj h
          rfl

/-- A calculation succeeds with the value of its text. -/
theorem Request.calculate_eq_ok_iff (text : String) (mode : Mode) (value : Double) :
    (∃ found, calculate (.expression text mode) = .ok found ∧ found.result = value) ↔
      computeExpression text = .ok value := by
  rcases calculate_cases text mode with ⟨other, hvalue, hanswer⟩ | ⟨refusal, hvalid, -, hanswer⟩ |
    ⟨refusal, -, hrefused, hanswer⟩
  · rw [hvalue, hanswer]
    constructor
    · rintro ⟨found, hfound, rfl⟩
      obtain rfl := Except.ok.inj hfound
      rfl
    · intro h
      exact ⟨_, rfl, Except.ok.inj h⟩
  · rw [hanswer]
    constructor
    · rintro ⟨found, hfound, -⟩
      exact nomatch hfound
    · intro h
      rw [Verdict.isValid_of_computeExpression h] at hvalid
      exact nomatch hvalid
  · rw [hanswer, hrefused]
    constructor
    · rintro ⟨found, hfound, -⟩
      exact nomatch hfound
    · intro h
      exact nomatch h

/-- A calculation fails when the check refuses its text or, if it passes, when the evaluation
does. -/
theorem Request.calculate_eq_error_iff (text : String) (mode : Mode) (failure : Failure) :
    calculate (.expression text mode) = .error failure ↔
      ((Verdict.ofText text).isValid = false ∧
        ∃ refusal, (Verdict.ofText text).toResult = .error refusal ∧ failure = .invalid refusal) ∨
      ((Verdict.ofText text).isValid = true ∧
        ∃ refusal, computeExpression text = .error refusal ∧ failure = .calculation refusal) := by
  rcases calculate_cases text mode with ⟨value, hvalue, hanswer⟩ |
    ⟨refusal, hvalid, hrefused, hanswer⟩ | ⟨refusal, hvalid, hrefused, hanswer⟩
  · have hvalid := Verdict.isValid_of_computeExpression hvalue
    rw [hanswer, hvalue, hvalid]
    simp
  · rw [hanswer, hrefused, hvalid]
    simp [eq_comm]
  · rw [hanswer, hrefused, hvalid]
    simp [eq_comm]

/-- **The check never takes a value away.**  An expression that has a value passes the check.  So a
calculation succeeds when the evaluation does, with the same value.  When it fails, it is invalid
if the check refuses the text, for the reason that the check gives, and otherwise it reports what
the evaluation says. -/
theorem calculate_expression_iff (text : String) (mode : Mode) (service : Service) :
    (∀ value, computeExpression text = .ok value → (Verdict.ofText text).isValid = true) ∧
      (∀ value, (∃ found, (service.calculate (.expression text mode)).1 = .ok found ∧
          found.result = value) ↔ computeExpression text = .ok value) ∧
      ∀ failure, (service.calculate (.expression text mode)).1 = .error failure ↔
        ((Verdict.ofText text).isValid = false ∧
          ∃ refusal, (Verdict.ofText text).toResult = .error refusal ∧
            failure = .invalid refusal) ∨
        ((Verdict.ofText text).isValid = true ∧
          ∃ refusal, computeExpression text = .error refusal ∧
            failure = .calculation refusal) := by
  rw [Service.fst_calculate]
  refine ⟨?_, ?_, ?_⟩
  · intro value h
    exact Verdict.isValid_of_computeExpression h
  · exact Request.calculate_eq_ok_iff text mode
  · exact Request.calculate_eq_error_iff text mode

/-! ## The call of a function -/

/-- Why the call of a function fails: its value is not finite, or else it names no function, or
else the function that it names refuses it. -/
inductive Request.Fails (value : Double) (operation : String) (second : Option Double) :
    Failure → Prop where
  | notFinite : value.isFinite = false →
      Fails value operation second (.invalid (.validation "Invalid value: must be a number"))
  | unsupported : value.isFinite = true → (∀ f : Function, ¬ f.IsNamed operation) →
      Fails value operation second (.invalid (.unsupportedOperation operation))
  | refused {refusal : Refusal} : value.isFinite = true →
      Function.Refuses value operation second refusal →
        Fails value operation second (.scientific refusal)

namespace Request

variable {value : Double} {operation : String} {second : Option Double}

/-- A value that is not finite is refused before anything else is looked at. -/
theorem calculate_of_not_isFinite (h : value.isFinite = false) :
    calculate (.scientific value operation second) =
      .error (.invalid (.validation "Invalid value: must be a number")) := by
  rw [calculate, h]
  rfl

/-- A text that names no function is refused before anything is calculated. -/
theorem calculate_of_not_isNamed (hvalue : value.isFinite = true)
    (h : ∀ f : Function, ¬ f.IsNamed operation) :
    calculate (.scientific value operation second) =
      .error (.invalid (.unsupportedOperation operation)) := by
  rw [calculate, hvalue, Function.ofName?_eq_none_iff.mpr h]
  rfl

/-- A call that passes the check is left to the function. -/
theorem calculate_of_isNamed (hvalue : value.isFinite = true) {f : Function}
    (h : f.IsNamed operation) :
    calculate (.scientific value operation second) =
      ((computeFunction value operation second).mapError .scientific).map fun result =>
        .ofResult (Calculation.label operation value second) result .scientific := by
  rw [calculate, hvalue, Function.ofName?_eq_some_iff.mpr h]
  cases computeFunction value operation second with
  | ok result => rfl
  | error refusal => rfl

/-- **The call of a function fails for one of its causes only**, and whenever one of them holds. -/
theorem calculate_scientific_eq_error_iff {failure : Failure} :
    calculate (.scientific value operation second) = .error failure ↔
      Fails value operation second failure := by
  cases hvalue : value.isFinite with
  | false =>
      rw [calculate_of_not_isFinite hvalue]
      constructor
      · intro h
        obtain rfl := Except.error.inj h
        exact .notFinite hvalue
      · intro h
        cases h with
        | notFinite _ => rfl
        | unsupported hfinite _ => exact nomatch hvalue.symm.trans hfinite
        | refused hfinite _ => exact nomatch hvalue.symm.trans hfinite
  | true =>
      by_cases hnamed : ∃ f : Function, f.IsNamed operation
      · obtain ⟨f, hf⟩ := hnamed
        rw [calculate_of_isNamed hvalue hf, map_eq_error_iff, mapError_eq_error_iff]
        constructor
        · rintro ⟨refusal, hrefused, rfl⟩
          exact .refused hvalue ((computeFunction_eq_error_iff hvalue hf).mp hrefused)
        · intro h
          cases h with
          | notFinite hfinite => exact nomatch hvalue.symm.trans hfinite
          | unsupported _ hnone => exact absurd hf (hnone f)
          | refused _ hrefuses =>
              exact ⟨_, (computeFunction_eq_error_iff hvalue hf).mpr hrefuses, rfl⟩
      · have hnone : ∀ f : Function, ¬ f.IsNamed operation := not_exists.mp hnamed
        rw [calculate_of_not_isNamed hvalue hnone]
        constructor
        · intro h
          obtain rfl := Except.error.inj h
          exact .unsupported hvalue hnone
        · intro h
          cases h with
          | notFinite hfinite => exact nomatch hvalue.symm.trans hfinite
          | unsupported _ _ => rfl
          | refused _ hrefuses =>
              cases hrefuses with
              | lacking hf _ => exact absurd hf (hnone _)
              | infinite hf _ _ => exact absurd hf (hnone _)

/-- What fails of an expression is its check or its evaluation. -/
theorem exists_of_calculate_expression {text : String} {mode : Mode} {failure : Failure}
    (h : calculate (.expression text mode) = .error failure) :
    ∃ message, failure = .invalid (.validation message) ∨
      failure = .calculation (.evaluation message) := by
  rcases (calculate_eq_error_iff text mode failure).mp h with ⟨hvalid, refusal, hrefused, rfl⟩ |
    ⟨-, refusal, hrefused, rfl⟩
  · rw [Verdict.toResult, hvalid] at hrefused
    obtain rfl := Except.error.inj hrefused
    exact ⟨_, Or.inl rfl⟩
  · obtain ⟨fault, -, rfl⟩ := mapError_eq_error_iff.mp hrefused
    exact ⟨_, Or.inr rfl⟩

/-- What a function would refuse for its value or for its name has been refused before. -/
theorem not_checked_of_calculate {request : Request} {refusal : Refusal}
    (h : request.calculate = .error (.scientific refusal)) :
    (∀ message, refusal ≠ .validation message) ∧
      ∀ name, refusal ≠ .unsupportedOperation name := by
  cases request with
  | expression text mode =>
      obtain ⟨message, hfailure | hfailure⟩ := exists_of_calculate_expression h
      · exact nomatch hfailure
      · exact nomatch hfailure
  | scientific value operation second =>
      cases calculate_scientific_eq_error_iff.mp h with
      | refused _ hrefuses =>
          cases hrefuses with
          | lacking _ hlacks => cases hlacks <;> exact ⟨nofun, nofun⟩
          | infinite _ _ _ => exact ⟨nofun, nofun⟩

end Request

end Abacus
