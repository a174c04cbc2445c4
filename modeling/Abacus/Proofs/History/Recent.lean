import Abacus.History.Store
import Abacus.Proofs.Except

/-!
# Recent rows — when the history can be shown

A row is shown as a record if its mode is one that there is, so a history whose rows were all put
under the name of a mode is always shown (`Store.exists_recent`).  The rows up to a limit are the first
of those up to a greater one (`Archive.recent_eq_take`), and so one that cannot be shown stops both.
-/

namespace Abacus.History

/-- To cut the limit down makes no difference where there is no more to take. -/
theorem take_min_mostRows {α : Type} {listed : List α} (h : listed.length ≤ mostRows) (limit : Nat) :
    listed.take (min limit mostRows) = listed.take limit := by
  rw [← List.take_take, List.take_of_length_le h]

/-- The rows that are shown are rows of the archive, newer than the cutoff. -/
theorem Archive.mem_of_mem_recent {archive : Archive} {limit : Nat} {cutoff : Int} {row : Row}
    (h : row ∈ archive.recent limit cutoff) : row ∈ archive.rows ∧ cutoff < row.createdAt := by
  have hsorted := List.mem_mergeSort.mp (List.mem_of_mem_take h)
  obtain ⟨hrow, hnewer⟩ := List.mem_filter.mp hsorted
  exact ⟨hrow, of_decide_eq_true hnewer⟩

theorem Archive.length_recent (archive : Archive) (limit : Nat) (cutoff : Int) :
    (archive.recent limit cutoff).length =
      min (min limit mostRows) (archive.newerThan cutoff).rows.length := by
  rw [recent, List.length_take, List.length_mergeSort]

/-- The fewer rows are the first of the more. -/
theorem Archive.recent_eq_take {few many : Nat} (h : few ≤ many) (archive : Archive) (cutoff : Int) :
    archive.recent few cutoff = (archive.recent many cutoff).take few := by
  rw [recent, recent, List.take_take, ← Nat.min_assoc, Nat.min_eq_left h]

/-- A limit that leaves nothing out shows as much as a greater one. -/
theorem Archive.recent_eq_of_length_le {archive : Archive} {cutoff : Int} {few many : Nat}
    (h : (archive.newerThan cutoff).rows.length ≤ few) (hle : few ≤ many) :
    archive.recent few cutoff = archive.recent many cutoff := by
  rw [recent_eq_take hle, List.take_of_length_le]
  rw [length_recent]
  omega

/-- A row is shown under the mode that its text names. -/
theorem Store.record_eq_ok_iff {row : Row} {found : Record} :
    Store.record row = .ok found ↔ ∃ mode, Mode.parse row.mode = .ok mode ∧
      found = ⟨row.id, row.expression, row.result, mode, row.createdAt⟩ := by
  rw [record]
  cases Mode.parse row.mode with
  | ok mode => simp [eq_comm]
  | error lower => simp

/-- A store that can be read shows all the rows up to the limit. -/
theorem Store.length_of_recent {archive : Archive} {limit : Nat} {cutoff : Int} {found : List Record}
    (h : recent limit cutoff (.working archive) = .ok found) :
    found.length = min (min limit mostRows) (archive.newerThan cutoff).rows.length := by
  rw [← (mapM_eq_ok_iff.mp h).length_eq, Archive.length_recent]

/-- A row that cannot be shown is met whatever comes behind it. -/
theorem Store.recent_eq_of_unknown {archive : Archive} {cutoff : Int} {few many : Nat}
    (hle : few ≤ many) {row : Row} (hrow : row ∈ archive.recent few cutoff)
    (hunknown : ∀ mode, Mode.parse row.mode ≠ .ok mode) :
    recent few cutoff (.working archive) = recent many cutoff (.working archive) := by
  cases hfew : (archive.recent few cutoff).mapM record with
  | ok found =>
      obtain ⟨shown, hshown⟩ := exists_mapM_iff.mp ⟨found, hfew⟩ row hrow
      obtain ⟨mode, hmode, -⟩ := record_eq_ok_iff.mp hshown
      exact absurd hmode (hunknown mode)
  | error fault =>
      have hmany := mapM_append_of_error hfew ((archive.recent many cutoff).drop few)
      rw [Archive.recent_eq_take hle, List.take_append_drop] at hmany
      exact hfew.trans hmany.symm

/-- **A history under modes that there are** is shown, whatever the limit and the cutoff. -/
theorem Store.exists_recent {archive : Archive}
    (h : ∀ row ∈ archive.rows, ∃ mode : Mode, row.mode = mode.name) (limit : Nat) (cutoff : Int) :
    ∃ records, Store.recent limit cutoff (.working archive) = .ok records := by
  refine exists_mapM_iff.mpr fun row hrow => ?_
  obtain ⟨mode, hmode⟩ := h row (Archive.mem_of_mem_recent hrow).1
  exact ⟨_, record_eq_ok_iff.mpr ⟨mode, by rw [hmode, Mode.parse_name], rfl⟩⟩

end Abacus.History
