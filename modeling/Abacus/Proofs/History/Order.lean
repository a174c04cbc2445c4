import Mathlib.Data.List.Nodup
import Mathlib.Data.List.Perm.Basic
import Abacus.Proofs.History.Recent

/-!
# Order — which rows the history shows, and in which order

The rows that are newer than the cutoff are listed in one order only, the newest first and of those as
new as each other the one that was put last: their numbers differ, so no two rows tie.  What is shown
are the first rows of this list, up to the limit, each as it was put (`perform_recent`).
-/

namespace Abacus.History

/-! ## The order -/

/-- The first row is newer than the second, or as new and put later. -/
def Row.IsBefore (first second : Row) : Prop :=
  second.createdAt < first.createdAt ∨
    first.createdAt = second.createdAt ∧ second.id < first.id

instance : DecidableRel Row.IsBefore := fun first second =>
  inferInstanceAs (Decidable (second.createdAt < first.createdAt ∨
    first.createdAt = second.createdAt ∧ second.id < first.id))

namespace Archive

theorem precedes_iff {first second : Row} : precedes first second = true ↔
    second.createdAt < first.createdAt ∨
      first.createdAt = second.createdAt ∧ second.id ≤ first.id := by
  rw [precedes, Bool.or_eq_true, Bool.and_eq_true, decide_eq_true_eq, decide_eq_true_eq, beq_iff_eq]

theorem precedes_trans (a b c : Row) (hab : precedes a b = true) (hbc : precedes b c = true) :
    precedes a c = true := by
  rw [precedes_iff] at hab hbc ⊢
  omega

theorem precedes_total (a b : Row) : (precedes a b || precedes b a) = true := by
  rw [Bool.or_eq_true, precedes_iff, precedes_iff]
  omega

/-- The list holds the rows that are newer than the cutoff, each once, the newest first and of those
as new as each other the one that was put last. -/
structure Lists (archive : Archive) (cutoff : Int) (listed : List Row) : Prop where
  mem_iff : ∀ row, row ∈ listed ↔ row ∈ archive.rows ∧ cutoff < row.createdAt
  ordered : listed.Pairwise Row.IsBefore

section Listing

variable {archive : Archive} {cutoff : Int} {listed : List Row}

theorem nodup_ids (archive : Archive) : (archive.rows.map Row.id).Nodup :=
  List.pairwise_map.mpr (archive.ascending.imp fun hless => Nat.ne_of_lt hless)

/-- Rows in order are different. -/
theorem Lists.nodup (h : archive.Lists cutoff listed) : listed.Nodup := by
  refine h.ordered.imp ?_
  rintro row _ hbefore rfl
  rw [Row.IsBefore] at hbefore
  omega

/-- The rows are listed in one order only. -/
theorem Lists.unique {other : List Row} (h : archive.Lists cutoff listed)
    (h' : archive.Lists cutoff other) : other = listed := by
  have hperm : other.Perm listed :=
    (List.perm_ext_iff_of_nodup h'.nodup h.nodup).mpr fun row =>
      (h'.mem_iff row).trans (h.mem_iff row).symm
  refine hperm.eq_of_pairwise ?_ h'.ordered h.ordered
  intro a b _ _ hab hba
  rw [Row.IsBefore] at hab hba
  omega

/-- The newer rows, put in order, are the list. -/
theorem lists_of_perm (hperm : listed.Perm (archive.newerThan cutoff).rows)
    (hordered : listed.Pairwise Row.IsBefore) : archive.Lists cutoff listed where
  mem_iff row := by
    rw [hperm.mem_iff, rows_newerThan, List.mem_filter, decide_eq_true_eq]
  ordered := hordered

/-- Sorting the rows lists them. -/
theorem lists_mergeSort (archive : Archive) (cutoff : Int) :
    archive.Lists cutoff ((archive.newerThan cutoff).rows.mergeSort precedes) := by
  refine lists_of_perm (List.mergeSort_perm _ _) ?_
  have hsorted := List.pairwise_mergeSort precedes_trans precedes_total
    (archive.newerThan cutoff).rows
  have hids : ((archive.newerThan cutoff).rows.mergeSort precedes).Pairwise
      fun a b => a.id ≠ b.id :=
    List.pairwise_map.mp
      (((List.mergeSort_perm _ precedes).map Row.id).nodup_iff.mpr (nodup_ids _))
  -- different numbers make the order strict
  refine (hsorted.and hids).imp ?_
  rintro a b ⟨hprecedes, hne⟩
  rw [precedes_iff] at hprecedes
  rw [Row.IsBefore]
  omega

/-- The rows that are looked up are the first of the list. -/
theorem Lists.recent_eq (h : archive.Lists cutoff listed) (limit : Nat) :
    archive.recent limit cutoff = listed.take (min limit mostRows) := by
  rw [recent, h.unique (lists_mergeSort archive cutoff)]

/-- The list has no more rows than the archive. -/
theorem Lists.length_le (h : archive.Lists cutoff listed) : listed.length ≤ archive.rows.length := by
  rw [← h.unique (lists_mergeSort archive cutoff), List.length_mergeSort]
  exact List.length_filter_le _ _

end Listing

end Archive

/-! ## What is shown -/

/-- The record has what the row was put with, under the mode that the row names. -/
structure Row.IsShownAs (row : Row) (shown : Record) : Prop where
  id : shown.id = row.id
  expression : shown.expression = row.expression
  result : shown.result = row.result
  mode : Mode.parse row.mode = .ok shown.mode
  createdAt : shown.createdAt = row.createdAt

theorem Row.isShownAs_of_record {row : Row} {shown : Record} (h : Store.record row = .ok shown) :
    row.IsShownAs shown := by
  obtain ⟨mode, hmode, rfl⟩ := Store.record_eq_ok_iff.mp h
  exact ⟨rfl, rfl, rfl, hmode, rfl⟩

/-- **The history is the first rows of the list**, each as it was put, if they have modes that there
are; and the store stays as it was.  The limit is cut down to the greatest signed number of 64 bits,
which makes no difference unless there are more rows than that. -/
theorem perform_recent (archive : Archive) (cutoff : Int) :
    ∃ listed, (∀ other, archive.Lists cutoff other ↔ other = listed) ∧
      ∀ limit,
        ((∀ row ∈ listed.take (min limit mostRows), ∃ mode, Mode.parse row.mode = .ok mode) →
          ∃ found, (Operation.recent limit cutoff).perform (.working archive) =
              (.ok (.records found), .working archive) ∧
            List.Forall₂ Row.IsShownAs (listed.take (min limit mostRows)) found) ∧
        (archive.rows.length ≤ mostRows →
          listed.take (min limit mostRows) = listed.take limit) := by
  have hlists := archive.lists_mergeSort cutoff
  refine ⟨_, fun other => ⟨hlists.unique, ?_⟩, fun limit => ⟨?_, ?_⟩⟩
  · rintro rfl
    exact hlists
  · intro hmodes
    have hshown : ∀ row ∈ archive.recent limit cutoff, ∃ shown, Store.record row = .ok shown := by
      intro row hrow
      obtain ⟨mode, hmode⟩ := hmodes row (hlists.recent_eq limit ▸ hrow)
      exact ⟨_, Store.record_eq_ok_iff.mpr ⟨mode, hmode, rfl⟩⟩
    obtain ⟨found, hfound⟩ := exists_mapM_iff.mpr hshown
    refine ⟨found, ?_, ?_⟩
    · rw [Operation.perform, Store.recent, hfound]
      rfl
    · rw [← hlists.recent_eq limit]
      exact (mapM_eq_ok_iff.mp hfound).imp fun _ _ => Row.isShownAs_of_record
  · exact fun hrows => take_min_mostRows (Nat.le_trans hlists.length_le hrows) limit

/-- The newest two of the rows below, the one that was put last first. -/
def newest : List Row :=
  [⟨⟨"2+2", "4", "Scientific", 0x7fffffffffffffff⟩, 2⟩,
    ⟨⟨"1+1", "2", "standard", 0x7fffffffffffffff⟩, 1⟩]

/-- Two rows that are as new as can be, one under no mode, and one that is as old as can be. -/
def extremes : Archive :=
  [⟨"1+1", "2", "standard", 0x7fffffffffffffff⟩, ⟨"2+2", "4", "Scientific", 0x7fffffffffffffff⟩,
    ⟨"3+3", "6", "binary", 0⟩,
    ⟨"4+4", "8", "standard", -0x8000000000000000⟩].foldl Archive.insert Archive.empty

/-- The row under no mode is beyond the limit, and the oldest row is not newer than its own time. -/
theorem perform_recent_extremes :
    (∀ row ∈ newest, ∃ mode, Mode.parse row.mode = .ok mode) ∧
      ∃ found, (Operation.recent 2 (-0x8000000000000000)).perform (.working extremes) =
          (.ok (.records found), .working extremes) ∧
        List.Forall₂ Row.IsShownAs newest found := by
  have hlists : extremes.Lists (-0x8000000000000000) (newest ++ [⟨⟨"3+3", "6", "binary", 0⟩, 3⟩]) :=
    Archive.lists_of_perm (by decide) (by decide)
  have hmodes : ∀ row ∈ newest, ∃ mode, Mode.parse row.mode = .ok mode := by
    rw [newest, List.forall_mem_cons, List.forall_mem_singleton]
    exact ⟨⟨.scientific, rfl⟩, ⟨.standard, rfl⟩⟩
  obtain ⟨listed, hlisted, hshown⟩ := perform_recent extremes (-0x8000000000000000)
  obtain rfl := (hlisted _).mp hlists
  exact ⟨hmodes, (hshown 2).1 hmodes⟩

end Abacus.History
