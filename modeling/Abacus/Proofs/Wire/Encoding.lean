import Abacus.Proofs.Json.Quoted
import Abacus.Proofs.Json.Writer
import Abacus.Wire.Encoding

/-!
# Encoding — a calculation is told by its text

Of all that the service answers with, only a calculation is written as an object that begins with
its expression, so a text that could be that of a calculation is one, in either layout.  And the
texts in it end where their marks close and its number at the next comma, so the text determines
what the history keeps of the calculation.
-/

namespace Abacus

open Json (Value)

/-! ## How the texts begin -/

theorem Calculation.take_compactChars (c : Calculation) :
    c.toJson.compactChars.take 3 = ['\x7b', '"', 'e'] := rfl

theorem Calculation.take_indentedChars (c : Calculation) :
    (c.toJson.indentedChars 0).take 6 = ['\x7b', '\n', ' ', ' ', '"', 'e'] := rfl

/-- No calculation is written as a text that begins otherwise. -/
theorem Calculation.compact_ne {text : String} (h : text.toList.take 3 ≠ ['\x7b', '"', 'e'])
    (c : Calculation) : text ≠ c.toJson.compact := by
  rintro rfl
  refine h ?_
  rw [Value.compact, String.toList_ofList, c.take_compactChars]

/-! ## Outcomes -/

/-- An outcome with the text of a calculation is a calculation. -/
theorem Outcome.exists_eq_calculation_of_compact {outcome : Outcome} {c : Calculation}
    (h : outcome.toJson.compact = c.toJson.compact) : ∃ found, outcome = .calculation found := by
  have hbegin : outcome.toJson.compactChars.take 3 = ['\x7b', '"', 'e'] := by
    rw [String.ofList_injective h, c.take_compactChars]
  cases outcome with
  | calculation found => exact ⟨found, rfl⟩
  | records found => exact nomatch hbegin
  | deleted count => exact nomatch hbegin

/-- An outcome laid out as a calculation is a calculation. -/
theorem Outcome.exists_eq_calculation_of_indented {outcome : Outcome} {c : Calculation}
    (h : outcome.toJson.indented = c.toJson.indented) : ∃ found, outcome = .calculation found := by
  have hbegin : (outcome.toJson.indentedChars 0).take 6 = ['\x7b', '\n', ' ', ' ', '"', 'e'] := by
    rw [String.ofList_injective h, c.take_indentedChars]
  cases outcome with
  | calculation found => exact ⟨found, rfl⟩
  | records found =>
      cases found with
      | nil => exact nomatch hbegin
      | cons record rest => exact nomatch hbegin
  | deleted count => exact nomatch hbegin

/-! ## What the text determines -/

/-- A calculation laid out with the given pieces between its texts, its number and its mode. -/
def Calculation.laid (start name next last stop : List Char) (c : Calculation) : List Char :=
  start ++ (Json.Quoted.write c.expression ++ (name ++ ((Json.Number.double c.result).write ++
    ',' :: (next ++ (Json.Quoted.write c.formatted ++
      (last ++ (Json.Quoted.write c.mode.name ++ stop)))))))

/-- Both layouts put the same pieces into every calculation. -/
theorem Calculation.exists_compactChars_eq :
    ∃ start name next last stop, ∀ c : Calculation,
      c.toJson.compactChars = c.laid start name next last stop := by
  refine ⟨'\x7b' :: Json.Quoted.write "expression" ++ [':'],
    ',' :: Json.Quoted.write "result" ++ [':'],
    Json.Quoted.write "formattedResult" ++ [':'], ',' :: Json.Quoted.write "mode" ++ [':'],
    ['\x7d'], ?_⟩
  intro c
  simp [toJson, laid, Mode.toJson, Value.double, Value.compactChars, Value.compactMembers]

theorem Calculation.exists_indentedChars_eq :
    ∃ start name next last stop, ∀ c : Calculation,
      c.toJson.indentedChars 0 = c.laid start name next last stop := by
  refine ⟨'\x7b' :: Value.newLine 1 ++ Json.Quoted.write "expression" ++ [':', ' '],
    ',' :: Value.newLine 1 ++ Json.Quoted.write "result" ++ [':', ' '],
    Value.newLine 1 ++ Json.Quoted.write "formattedResult" ++ [':', ' '],
    ',' :: Value.newLine 1 ++ Json.Quoted.write "mode" ++ [':', ' '],
    Value.newLine 0 ++ ['\x7d'], ?_⟩
  intro c
  simp [toJson, laid, Mode.toJson, Value.double, Value.indentedChars, Value.indentedMembers]

/-- Calculations that are laid out alike are kept alike. -/
theorem Calculation.entry_eq_of_laid {start name next last stop : List Char}
    {c d : Calculation}
    (h : c.laid start name next last stop = d.laid start name next last stop) :
    c.entry = d.entry := by
  obtain ⟨hexpression, h⟩ := Json.Quoted.write_append_inj (List.append_cancel_left h)
  have hafter := Json.Number.rest_eq_of_write (List.append_cancel_left h)
  obtain ⟨hformatted, h⟩ := Json.Quoted.write_append_inj (List.append_cancel_left hafter)
  obtain ⟨hname, -⟩ := Json.Quoted.write_append_inj (List.append_cancel_left h)
  have hmode : c.mode = d.mode := by
    have hfound := congrArg Mode.ofName? hname
    rw [Mode.ofName?_name, Mode.ofName?_name] at hfound
    exact Option.some.inj hfound
  rw [entry, entry, hexpression, hformatted, hmode]

/-- The text of a calculation determines what is kept of it. -/
theorem Calculation.entry_eq_of_compact {c d : Calculation}
    (h : c.toJson.compact = d.toJson.compact) : c.entry = d.entry := by
  obtain ⟨start, name, next, last, stop, hlaid⟩ := exists_compactChars_eq
  have hchars := String.ofList_injective h
  rw [hlaid, hlaid] at hchars
  exact entry_eq_of_laid hchars

/-- So does its text on several lines. -/
theorem Calculation.entry_eq_of_indented {c d : Calculation}
    (h : c.toJson.indented = d.toJson.indented) : c.entry = d.entry := by
  obtain ⟨start, name, next, last, stop, hlaid⟩ := exists_indentedChars_eq
  have hchars := String.ofList_injective h
  rw [hlaid, hlaid] at hchars
  exact entry_eq_of_laid hchars

end Abacus
