import Abacus.Proofs.Calculation
import Abacus.Proofs.Result
import Abacus.Proofs.Wire.Records

/-!
# Printing — what a calculation tells is printed as it is

A calculation that succeeds has no character in its texts that deletes another where it is printed
(`isPrintable_of_calculate`): an expression is written in its alphabet, and the label of a function
is made of its name and of numbers.
-/

namespace Abacus

open Decimal (IsPart)

/-- The character that deletes is in no number. -/
theorem Decimal.not_isPart_delete : ¬ IsPart '\x7f' := by
  decide

theorem Double.delete_not_mem_plain (x : Double) : '\x7f' ∉ x.plain.toList :=
  not_mem_plain Decimal.not_isPart_delete (by decide) x

/-- The name of a function has letters only. -/
theorem Function.IsNamed.delete_not_mem {f : Function} {text : String} (h : f.IsNamed text) :
    '\x7f' ∉ text.toList :=
  fun hmem => absurd (h.isAlpha_of_mem hmem) (by decide)

/-- A text that denotes a value is written in the alphabet of expressions. -/
theorem Expression.Denotes.delete_not_mem {text : String} {value : Double}
    (h : Denotes text value) :
    '\x7f' ∉ text.toList := by
  intro hmem
  exact absurd (isAllowed_iff.mpr (h.allowed _ hmem)) (by decide)

namespace Calculation

/-- Nothing in the texts of the calculation deletes what is printed. -/
def IsPrintable (c : Calculation) : Prop :=
  '\x7f' ∉ c.expression.toList ∧ '\x7f' ∉ c.formatted.toList

theorem delete_not_mem_label {f : Function} {operation : String} (h : f.IsNamed operation)
    (value : Double) (second : Option Double) :
    '\x7f' ∉ (label operation value second).toList := by
  have hname := h.delete_not_mem
  have hvalue := value.delete_not_mem_plain
  cases second with
  | none => simp [label, hname, hvalue]
  | some second =>
      have hsecond := second.delete_not_mem_plain
      simp [label, hname, hvalue, hsecond]

/-- The text of a finite result is a numeral. -/
theorem IsSound.delete_not_mem {c : Calculation} (h : c.IsSound) : '\x7f' ∉ c.formatted.toList := by
  obtain ⟨n, hn⟩ := Display.exists_isNumeral_result h.finite
  rw [← h.formatted] at hn
  intro hmem
  rcases Number.mem_of_isNumeral hn hmem with hdigit | hother
  · exact absurd hdigit (by decide)
  · exact absurd hother (by decide)

/-- **A calculation that succeeds** is printed as it is. -/
theorem isPrintable_of_calculate {request : Request} {c : Calculation}
    (h : request.calculate = .ok c) : c.IsPrintable := by
  refine ⟨?_, (isSound_of_calculate h).delete_not_mem⟩
  cases request with
  | expression text mode =>
      rcases Request.calculate_cases text mode with ⟨value, hvalue, hanswer⟩ |
        ⟨refusal, -, -, hanswer⟩ | ⟨refusal, -, -, hanswer⟩
      · obtain rfl := Except.ok.inj (hanswer.symm.trans h)
        have hdenotes := Expression.evaluate_eq_ok_iff_denotes.mp (mapError_eq_ok_iff.mp hvalue)
        exact hdenotes.delete_not_mem
      · cases hanswer.symm.trans h
      · cases hanswer.symm.trans h
  | scientific value operation second =>
      cases hvalue : value.isFinite with
      | false => cases (Request.calculate_of_not_isFinite hvalue).symm.trans h
      | true =>
          by_cases hnamed : ∃ f : Function, f.IsNamed operation
          · obtain ⟨f, hf⟩ := hnamed
            rw [Request.calculate_of_isNamed hvalue hf] at h
            obtain ⟨result, -, rfl⟩ := map_eq_ok_iff.mp h
            exact delete_not_mem_label hf value second
          · have hnone := not_exists.mp hnamed
            cases (Request.calculate_of_not_isNamed hvalue hnone).symm.trans h

end Calculation

end Abacus
