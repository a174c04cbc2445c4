import Abacus.Proofs.CommandLine.Program
import Abacus.Proofs.History.Growth
import Abacus.Proofs.History.Recent

/-!
# Successes — the rows of calculations that succeeded

An archive into which only the calculations that succeeded were put has a row for each, numbered in
their order.  While none of them is too old, a command adds the success under it and nothing else
(`effect_archive`), and the last successes are shown, the newest first (`recent_archive`).
-/

namespace Abacus.CommandLine

open History (Archive Draft Record Row Store cutoff mostRows)

/-- A calculation that succeeded, and when. -/
structure Success where
  calculation : Calculation
  time : Int

namespace Success

/-- The calculation that succeeds under a command. -/
def ofCommand? (now : Int) : Command → Option Success
  | .calculate request => request.calculate.toOption.map fun found => ⟨found, now⟩
  | .history _ | .cleanup => none

/-- What is kept of a success. -/
def draft (s : Success) : Draft :=
  .ofEntry s.calculation.entry s.time

/-- How a success is shown. -/
def record (s : Success) (id : Nat) : Record :=
  ⟨id, s.calculation.expression, s.calculation.formatted, s.calculation.mode, s.time⟩

theorem ofCommand?_eq_some_iff {now : Int} {command : Command} {s : Success} :
    ofCommand? now command = some s ↔ ∃ request, command = .calculate request ∧
      request.calculate = .ok s.calculation ∧ s.time = now := by
  cases command with
  | calculate request =>
      rw [ofCommand?]
      constructor
      · intro h
        cases hfound : request.calculate with
        | ok found =>
            rw [hfound] at h
            obtain rfl := Option.some.inj h
            exact ⟨request, rfl, hfound, rfl⟩
        | error failure =>
            rw [hfound] at h
            cases h
      · rintro ⟨other, hother, hfound, rfl⟩
        obtain rfl := Command.calculate.inj hother
        rw [hfound]
        rfl
  | history limit =>
      constructor
      · intro h
        cases h
      · rintro ⟨request, h, -⟩
        cases h
  | cleanup =>
      constructor
      · intro h
        cases h
      · rintro ⟨request, h, -⟩
        cases h

/-- The rows of some successes, numbered from one in their order. -/
def rows (found : List Success) : List Row :=
  found.mapIdx fun i s => ⟨s.draft, i + 1⟩

/-- The records of some successes, numbered from one in their order. -/
def records (found : List Success) : List Record :=
  found.mapIdx fun i s => s.record (i + 1)

/-- The archive of some successes. -/
def archive (found : List Success) : Archive :=
  .ofDrafts (found.map draft)

theorem rows_archive (found : List Success) : (archive found).rows = rows found := by
  rw [archive, (Archive.rows_ofDrafts _).1, rows]
  exact List.ext_getElem (by simp) (by simp)

theorem archive_concat (found : List Success) (s : Success) :
    archive (found ++ [s]) = (archive found).insert s.draft := by
  rw [archive, List.map_append, List.map_singleton, Archive.ofDrafts_concat]
  rfl

/-- A row of the archive is that of a success. -/
theorem exists_of_mem_rows {found : List Success} {row : Row} (h : row ∈ (archive found).rows) :
    ∃ s ∈ found, row.toDraft = s.draft := by
  obtain ⟨s, hs, hdraft⟩ := List.mem_map.mp (Archive.toDraft_mem_of_mem_rows h)
  exact ⟨s, hs, hdraft.symm⟩

/-- If no success is too old, no row is. -/
theorem newer_of_mem_rows {found : List Success} {bound : Int} (h : ∀ s ∈ found, bound < s.time) :
    ∀ row ∈ (archive found).rows, bound < row.createdAt := by
  intro row hrow
  obtain ⟨s, hs, hdraft⟩ := exists_of_mem_rows hrow
  rw [hdraft]
  exact h s hs

theorem exists_of_mem_records {found : List Success} {r : Record} (h : r ∈ records found) :
    ∃ s ∈ found, ∃ id : Nat, r = s.record id := by
  obtain ⟨i, hi, rfl⟩ := List.mem_mapIdx.mp h
  exact ⟨found[i], List.getElem_mem hi, i + 1, rfl⟩

/-- A row is shown as its success. -/
theorem record_row (s : Success) (id : Nat) :
    Store.record ⟨s.draft, id⟩ = .ok (s.record id) :=
  Store.record_eq_ok_iff.mpr ⟨s.calculation.mode, Mode.parse_name _, rfl⟩

/-- The rows of the successes are shown as their records. -/
theorem forall₂_record_rows (found : List Success) :
    List.Forall₂ (fun row r => Store.record row = .ok r) (rows found) (records found) := by
  rw [rows, records, List.forall₂_iff_get]
  refine ⟨by simp, fun i hi hi' => ?_⟩
  simp only [List.get_eq_getElem, List.getElem_mapIdx]
  exact record_row _ _

/-- While none of them is too old, the last successes are shown, the newest first. -/
theorem recent_archive {found : List Success} {now : Int}
    (hkept : ∀ s ∈ found, cutoff now < s.time)
    (hascending : found.Pairwise fun s t => s.time ≤ t.time) (limit : Nat) :
    (Store.working (archive found)).recent limit (cutoff now) =
      .ok ((records found).reverse.take (min limit mostRows)) := by
  have hrows : (archive found).rows.Pairwise fun a b => a.createdAt ≤ b.createdAt := by
    rw [rows_archive, rows, List.pairwise_iff_getElem]
    intro i j hi hj hij
    simp only [List.getElem_mapIdx]
    exact List.pairwise_iff_getElem.mp hascending i j _ _ hij
  rw [Store.recent, Archive.recent_eq_take_reverse (newer_of_mem_rows hkept) hrows, rows_archive,
    mapM_eq_ok_iff]
  exact List.forall₂_take _ (List.rel_reverse (forall₂_record_rows found))

/-- A command adds the success under it to an archive in which nothing is too old. -/
theorem effect_archive {found : List Success} {now : Int} (hkept : ∀ s ∈ found, cutoff now < s.time)
    (command : Command) :
    command.effect now (archive found) = archive (found ++ (ofCommand? now command).toList) := by
  cases command with
  | calculate request =>
      rw [Command.effect, ofCommand?]
      cases request.calculate with
      | ok c => exact (archive_concat found ⟨c, now⟩).symm
      | error failure => exact congrArg archive (List.append_nil found).symm
  | history limit => exact congrArg archive (List.append_nil found).symm
  | cleanup =>
      have hnone : archive (found ++ (ofCommand? now .cleanup).toList) = archive found :=
        congrArg archive (List.append_nil found)
      rw [hnone]
      exact Archive.newerThan_eq_self (newer_of_mem_rows hkept)

end Success

end Abacus.CommandLine
