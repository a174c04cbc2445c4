import Mathlib.Algebra.GroupWithZero.Nat
import Mathlib.Data.List.Basic
import Abacus.History.Store

/-!
# Insertions — every row comes of an insertion and goes by a cleanup

A run of operations is followed from one operation to the next, and whatever row turns up in the
store is noted together with what is still to come (`insertions`).  So the notes hold every row
that there ever was.  One lemma says what a single operation does (`Operation.perform_working`).
By induction on the run, the numbers in the notes go up, whatever is deleted and however often the
store is opened again, and the rows at the end are those of the notes that no later cleanup covers.
-/

namespace Abacus.History

/-! ## What a run inserts and deletes -/

/-- The rows of a store; none if it cannot be used. -/
def Store.rows : Store → List Row
  | .working archive => archive.rows
  | .unavailable _ => []

namespace Operation

/-- What the operation inserts, if it is an insertion. -/
def draft? : Operation → Option Draft
  | .insert draft => some draft
  | .recent _ _ | .cleanup _ | .reopen => none

/-- The operation deletes the row if it is there: it is a cleanup, and the row is not newer than
its cutoff. -/
def covers (row : Row) : Operation → Bool
  | .cleanup cutoff => row.createdAt ≤ cutoff
  | .insert _ | .recent _ _ | .reopen => false

/-- How many rows were deleted, if the answer says so. -/
def deleted? : Except Store.Fault Answer → Option Nat
  | .ok (.deleted count) => some count
  | .ok .done | .ok (.records _) | .error _ => none

end Operation

/-- The rows that are in the second store and were not in the first. -/
def added (before after : Store) : List Row :=
  after.rows.filter fun row => row ∉ before.rows

/-- A row that turned up in the course of a run, and the operations that came after it. -/
structure Insertion where
  row : Row
  later : List Operation

/-- No later operation deletes the row. -/
def Insertion.isKept (found : Insertion) : Bool :=
  found.later.all fun operation => !operation.covers found.row

/-- The rows that turn up in the course of a run, in the order in which they do. -/
def insertions (store : Store) : List Operation → List Insertion
  | [] => []
  | operation :: rest =>
      let next := (operation.perform store).2
      (added store next).map (fun row => ⟨row, rest⟩) ++ insertions next rest

/-! ## One operation -/

section Step

variable (archive : Archive)

/-- The rows that the operation puts into an archive: for an insertion one, under the next
number. -/
def Operation.newRows (operation : Operation) : List Row :=
  operation.draft?.toList.map fun draft => ⟨draft, archive.lastId + 1⟩

/-- **What one operation does to an archive**: the rows that it covers go, its new rows come last,
each new row takes up a number, and the answer counts the rows that go. -/
theorem Operation.perform_working (operation : Operation) :
    ∃ next, (operation.perform (.working archive)).2 = .working next ∧
      next.rows = archive.rows.filter (fun row => !operation.covers row) ++
        operation.newRows archive ∧
      next.lastId = archive.lastId + operation.draft?.toList.length ∧
      archive.rows.length + operation.draft?.toList.length = next.rows.length +
        (deleted? (operation.perform (.working archive)).1).toList.sum := by
  have hall : archive.rows.filter (fun _ => !false) = archive.rows := by simp
  cases operation with
  | insert draft =>
      refine ⟨archive.insert draft, rfl, ?_, rfl, ?_⟩
      · exact congrArg (· ++ _) hall.symm
      · show archive.rows.length + 1 = (archive.rows ++ [_]).length + 0
        rw [List.length_append]
        rfl
  | recent limit cutoff =>
      refine ⟨archive, rfl, ?_, rfl, ?_⟩
      · exact (List.append_nil _).trans hall |>.symm
      · rw [perform]
        cases Store.recent limit cutoff (.working archive) with
        | ok found => rfl
        | error fault => rfl
  | cleanup cutoff =>
      refine ⟨archive.newerThan cutoff, rfl, ?_, rfl, ?_⟩
      · -- a row goes or is newer than the cutoff
        refine ((List.append_nil _).trans (List.filter_congr fun row _ => ?_)).symm
        rw [covers, ← decide_not, decide_eq_decide, Int.not_le]
      · have hfewer : (archive.newerThan cutoff).rows.length ≤ archive.rows.length :=
          List.length_filter_le ..
        show archive.rows.length + 0 = (archive.newerThan cutoff).rows.length +
          (archive.rows.length - (archive.newerThan cutoff).rows.length + 0)
        omega
  | reopen => exact ⟨archive, rfl, (List.append_nil _).trans hall |>.symm, rfl, rfl⟩

/-- The new rows of an operation are what turns up: no row has their number yet. -/
theorem added_eq_newRows {operation : Operation} {next : Archive}
    (hrows : next.rows = archive.rows.filter (fun row => !operation.covers row) ++
      operation.newRows archive) :
    added (.working archive) (.working next) = operation.newRows archive := by
  have hold : (archive.rows.filter fun row => !operation.covers row).filter
      (fun row => row ∉ archive.rows) = [] := by
    rw [List.filter_eq_nil_iff]
    intro row hrow
    simpa using (List.mem_filter.mp hrow).1
  have hnew : (operation.newRows archive).filter (fun row => row ∉ archive.rows) =
      operation.newRows archive := by
    rw [List.filter_eq_self]
    intro row hrow
    obtain ⟨draft, -, rfl⟩ := List.mem_map.mp hrow
    refine decide_eq_true fun hmem => ?_
    exact Nat.not_succ_le_self _ (archive.bounded _ hmem)
  show next.rows.filter (fun row => row ∉ archive.rows) = _
  rw [hrows, List.filter_append, hold, hnew, List.nil_append]

/-- A run begins with the new rows of its first operation, and goes on with what they become. -/
theorem insertions_cons {operation : Operation} {next : Archive}
    (hperform : (operation.perform (.working archive)).2 = .working next)
    (hrows : next.rows = archive.rows.filter (fun row => !operation.covers row) ++
      operation.newRows archive) (rest : List Operation) :
    insertions (.working archive) (operation :: rest) =
      (operation.newRows archive).map (fun row => ⟨row, rest⟩) ++
        insertions (.working next) rest := by
  rw [insertions, hperform, added_eq_newRows archive hrows]

end Step

/-! ## Whole runs -/

theorem Operation.performAll_cons (store : Store) (operation : Operation)
    (rest : List Operation) :
    performAll store (operation :: rest) =
      ((operation.perform store).1 :: (performAll (operation.perform store).2 rest).1,
        (performAll (operation.perform store).2 rest).2) := rfl

/-- Each insertion makes a row with what it inserts, and nothing else makes a row. -/
theorem map_toDraft_insertions (archive : Archive) (operations : List Operation) :
    (insertions (.working archive) operations).map (fun found => found.row.toDraft) =
      operations.filterMap Operation.draft? := by
  induction operations generalizing archive with
  | nil => rfl
  | cons operation rest ih =>
      obtain ⟨next, hperform, hrows, -⟩ := operation.perform_working archive
      rw [insertions_cons archive hperform hrows, List.map_append, ih]
      cases hdraft : operation.draft? with
      | none => simp [Operation.newRows, hdraft]
      | some draft => simp [Operation.newRows, hdraft]

/-- The rows of a run get numbers above all that were given before. -/
theorem lastId_lt_insertions {archive : Archive} {operations : List Operation} {found : Insertion}
    (h : found ∈ insertions (.working archive) operations) : archive.lastId < found.row.id := by
  induction operations generalizing archive with
  | nil => exact nomatch h
  | cons operation rest ih =>
      obtain ⟨next, hperform, hrows, hid, -⟩ := operation.perform_working archive
      rw [insertions_cons archive hperform hrows] at h
      rcases List.mem_append.mp h with hnow | hlater
      · obtain ⟨row, hrow, rfl⟩ := List.mem_map.mp hnow
        obtain ⟨draft, -, rfl⟩ := List.mem_map.mp hrow
        exact Nat.lt_succ_self _
      · have := ih hlater
        omega

/-- The numbers go up along a run. -/
theorem pairwise_insertions (archive : Archive) (operations : List Operation) :
    (insertions (.working archive) operations).Pairwise fun first second =>
      first.row.id < second.row.id := by
  induction operations generalizing archive with
  | nil => exact List.Pairwise.nil
  | cons operation rest ih =>
      obtain ⟨next, hperform, hrows, hid, -⟩ := operation.perform_working archive
      rw [insertions_cons archive hperform hrows]
      refine List.pairwise_append.mpr ⟨?_, ih next, ?_⟩
      · cases hdraft : operation.draft? with
        | none => simp [Operation.newRows, hdraft]
        | some draft => simp [Operation.newRows, hdraft]
      · intro first hfirst second hsecond
        obtain ⟨row, hrow, rfl⟩ := List.mem_map.mp hfirst
        obtain ⟨draft, hdraft, rfl⟩ := List.mem_map.mp hrow
        -- an operation with a new row takes up the number of that row
        have hlater := lastId_lt_insertions hsecond
        have hlength := List.length_pos_of_mem hdraft
        show archive.lastId + 1 < second.row.id
        omega

/-- After a run there are the rows that were there and those that turned up, without those that a
later cleanup covers. -/
theorem rows_performAll (archive : Archive) (operations : List Operation) :
    (Operation.performAll (.working archive) operations).2.rows =
      archive.rows.filter (fun row => operations.all fun operation => !operation.covers row) ++
        ((insertions (.working archive) operations).filter Insertion.isKept).map
          Insertion.row := by
  induction operations generalizing archive with
  | nil => exact ((List.append_nil _).trans (List.filter_eq_self.mpr fun _ _ => rfl)).symm
  | cons operation rest ih =>
      obtain ⟨next, hperform, hrows, -⟩ := operation.perform_working archive
      -- a row stays that no operation covers, the first or a later one
      have hold (row : Row) : ((operation :: rest).all fun later => !later.covers row) =
          ((rest.all fun later => !later.covers row) && !operation.covers row) := by
        rw [List.all_cons, Bool.and_comm]
      have hnew : (((operation.newRows archive).map fun row => Insertion.mk row rest).filter
          Insertion.isKept).map Insertion.row =
            (operation.newRows archive).filter fun row =>
              rest.all fun later => !later.covers row := by
        rw [List.filter_map, List.map_map]
        exact List.map_id _
      rw [Operation.performAll_cons, hperform, insertions_cons archive hperform hrows]
      dsimp only
      rw [ih next, hrows, List.filter_append, List.filter_filter, List.append_assoc,
        List.filter_append, List.map_append, hnew]
      simp only [hold]

/-- What was there and what is inserted is there or is counted as deleted. -/
theorem length_performAll (archive : Archive) (operations : List Operation) :
    archive.rows.length + (operations.filterMap Operation.draft?).length =
      (Operation.performAll (.working archive) operations).2.rows.length +
        ((Operation.performAll (.working archive) operations).1.filterMap
          Operation.deleted?).sum := by
  induction operations generalizing archive with
  | nil => rfl
  | cons operation rest ih =>
      obtain ⟨next, hperform, -, -, hcount⟩ := operation.perform_working archive
      have hrest := ih next
      simp only [Operation.performAll_cons, hperform, List.filterMap_eq_flatMap_toList,
        List.flatMap_cons, List.length_append, List.sum_append] at hrest ⊢
      omega

/-- **Every row comes of one insertion and goes by one cleanup.**  Over a run that begins with an
empty store, each insertion makes a row with just what it inserts, and nothing else makes a row.
The numbers of these rows go up in the order of the insertions, also when earlier rows are deleted
or the store is opened again, so no number is given twice.  In the end there are, in this order and
as they were inserted, the rows that no later cleanup covers, and together with the counts that
the cleanups answer they make up the insertions. -/
theorem insertions_performAll (operations : List Operation) :
    (insertions .empty operations).map (fun found => found.row.toDraft) =
        operations.filterMap Operation.draft? ∧
      ((insertions .empty operations).map fun found => found.row.id).Pairwise (· < ·) ∧
      (Operation.performAll .empty operations).2.rows =
        ((insertions .empty operations).filter Insertion.isKept).map Insertion.row ∧
      (operations.filterMap Operation.draft?).length =
        (Operation.performAll .empty operations).2.rows.length +
          ((Operation.performAll .empty operations).1.filterMap Operation.deleted?).sum := by
  refine ⟨map_toDraft_insertions .empty operations, ?_, rows_performAll .empty operations, ?_⟩
  · exact List.pairwise_map.mpr (pairwise_insertions .empty operations)
  · have hcount := length_performAll .empty operations
    rwa [Archive.rows_empty, List.length_nil, Nat.zero_add] at hcount

example : (insertions .empty [.insert ⟨"1+1", "2", "standard", 5⟩, .cleanup 5, .reopen,
    .insert ⟨"2", "2", "graphing", 5⟩]).map (fun found => found.row.id) = [1, 2] := by
  decide

end Abacus.History
