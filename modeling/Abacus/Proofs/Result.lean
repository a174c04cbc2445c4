import Abacus.Proofs.Display
import Abacus.Proofs.Except
import Abacus.Proofs.Expression.Meaning
import Abacus.Proofs.Wire.Encoding

/-!
# Results — what a successful calculation answers

Infinite and undefined values may appear on the way, but a calculation that succeeds has a finite
result and is shown by the text of that result (`isSound_of_calculate`).  The text is a numeral, and so
is the number in the JSON of the calculation; the two layouts of that JSON each tell all of it
(`eq_of_compact`, `eq_of_indented`).
-/

namespace Abacus

open Json (IsNumeral Value)

/-! ## Numbers in JSON -/

/-- A finite double is written as a numeral, and never as null. -/
theorem Json.Number.exists_isNumeral_write {x : Double} (h : x.isFinite = true) :
    ∃ n, IsNumeral (Number.double x).write n := by
  cases x with
  | nan => exact absurd h Bool.false_ne_true
  | infinite negative => exact absurd h Bool.false_ne_true
  | finite negative m =>
      obtain ⟨n, hn, -⟩ := Double.denotes_pointed .even (-5) true negative m
      exact ⟨n, hn⟩

/-- What is written for a finite double tells it. -/
theorem Json.Number.eq_of_write {x y : Double} (hy : y.isFinite = true)
    (h : (Number.double x).write = (Number.double y).write) : x = y := by
  -- the letters of null are in no numeral
  have hnull : (Number.double y).write ≠ "null".toList := by
    intro hnull
    obtain ⟨n, hn⟩ := exists_isNumeral_write hy
    rw [hnull] at hn
    rcases Abacus.Number.mem_of_isNumeral hn (c := 'u') (by decide) with hdigit | hother
    · exact absurd hdigit (by decide)
    · exact absurd hother (by decide)
  cases x with
  | nan => exact absurd h.symm hnull
  | infinite negative => exact absurd h.symm hnull
  | finite negative m =>
      cases y with
      | nan => exact absurd hy Bool.false_ne_true
      | infinite negative => exact absurd hy Bool.false_ne_true
      | finite negative' m' =>
          have hdenotes := Double.denotes_pointed .even (-5) true negative m
          have hdenotes' := Double.denotes_pointed .even (-5) true negative' m'
          rw [show (Double.pointed .even (-5) true negative m).toList =
            (Double.pointed .even (-5) true negative' m').toList from h] at hdenotes
          exact Decimal.finite_eq_of_denotes hdenotes hdenotes'

namespace Calculation

/-! ## Calculations that succeed -/

/-- The result is finite, and is shown by its text. -/
structure IsSound (c : Calculation) : Prop where
  finite : c.result.isFinite = true
  formatted : c.formatted = Display.result c.result

theorem isSound_ofResult {result : Double} (h : result.isFinite = true) (expression : String)
    (mode : Mode) : (ofResult expression result mode).IsSound :=
  ⟨h, rfl⟩

/-- A function that gives a result gives a finite one. -/
theorem isFinite_of_computeFunction {value result : Double} {operation : String}
    {second : Option Double} (h : computeFunction value operation second = .ok result) :
    result.isFinite = true := by
  rw [computeFunction] at h
  split at h
  · exact nomatch h
  · split at h
    · exact nomatch h
    · obtain ⟨found, -, hfound⟩ := bind_eq_ok_iff.mp h
      rw [finiteResult] at hfound
      split at hfound
      · next hfinite =>
        obtain rfl := Except.ok.inj hfound
        exact hfinite
      · exact nomatch hfound

/-- **A calculation that succeeds** has a finite result and is shown by its text. -/
theorem isSound_of_calculate {request : Request} {c : Calculation}
    (h : request.calculate = .ok c) : c.IsSound := by
  cases request with
  | expression text mode =>
      obtain ⟨-, -, h⟩ := bind_eq_ok_iff.mp h
      obtain ⟨result, hresult, h⟩ := bind_eq_ok_iff.mp h
      obtain rfl := Except.ok.inj h
      have hvalue := mapError_eq_ok_iff.mp (mapError_eq_ok_iff.mp hresult)
      obtain ⟨tree, -, -, hfinite⟩ := Expression.evaluate_eq_ok_iff.mp hvalue
      exact isSound_ofResult hfinite text mode
  | scientific value operation second =>
      rw [Request.calculate] at h
      split at h
      · exact nomatch h
      · split at h
        · exact nomatch h
        · obtain ⟨result, hresult, h⟩ := bind_eq_ok_iff.mp h
          obtain rfl := Except.ok.inj h
          exact isSound_ofResult (isFinite_of_computeFunction (mapError_eq_ok_iff.mp hresult)) _ _

variable {c d : Calculation}

/-- The text of a result is read to its last character, and is not the word for an error. -/
theorem IsSound.read (h : c.IsSound) :
    c.formatted ≠ "Error" ∧
      ∃ w, Decimal.readWritten Text.isDecimalDigit c.formatted.toList = some (w, []) ∧
        Number.parse c.formatted = some w.toDouble := by
  obtain ⟨n, hn⟩ := Display.exists_isNumeral_result h.finite
  rw [← h.formatted] at hn
  constructor
  · rw [h.formatted, Ne, Display.result_eq_error_iff, h.finite]
    decide
  · obtain ⟨w, hread, hparse, -⟩ := Number.parse_of_isNumeral hn
    exact ⟨w, hread, hparse⟩

/-! ## The JSON of a calculation tells all of it -/

/-- Calculations that are laid out alike are the same, if the result is finite. -/
theorem eq_of_laid {start name next last stop : List Char} (hd : d.result.isFinite = true)
    (h : c.laid start name next last stop = d.laid start name next last stop) : c = d := by
  have hentry := entry_eq_of_laid h
  obtain ⟨-, h⟩ := Json.Quoted.write_append_inj (List.append_cancel_left h)
  have hnumber := List.append_cancel_left h
  rw [Json.Number.rest_eq_of_write hnumber] at hnumber
  have hresult := Json.Number.eq_of_write hd (List.append_cancel_right hnumber)
  obtain ⟨expression, result, formatted, mode⟩ := c
  obtain ⟨expression', result', formatted', mode'⟩ := d
  simp only [entry, Entry.mk.injEq] at hentry hresult
  obtain ⟨rfl, rfl, rfl⟩ := hentry
  rw [hresult]

theorem eq_of_compact (hd : d.result.isFinite = true) (h : c.toJson.compact = d.toJson.compact) :
    c = d := by
  obtain ⟨start, name, next, last, stop, hlaid⟩ := exists_compactChars_eq
  have hchars := String.ofList_injective h
  rw [hlaid, hlaid] at hchars
  exact eq_of_laid hd hchars

theorem eq_of_indented (hd : d.result.isFinite = true)
    (h : c.toJson.indented = d.toJson.indented) : c = d := by
  obtain ⟨start, name, next, last, stop, hlaid⟩ := exists_indentedChars_eq
  have hchars := String.ofList_injective h
  rw [hlaid, hlaid] at hchars
  exact eq_of_laid hd hchars

end Calculation

end Abacus
