import Mathlib.Data.List.Induction
import Abacus.Proofs.History.Order

/-!
# Growth — an archive into which rows were only put

The rows are those that were put, numbered from one in their order (`rows_ofDrafts`).  If they were put
at times that never go back, the newest rows are the last ones (`recent_eq_take_reverse`).
-/

namespace Abacus.History.Archive

/-- The archive after some rows were put, one after the other. -/
def ofDrafts (drafts : List Draft) : Archive :=
  drafts.foldl insert empty

theorem ofDrafts_concat (drafts : List Draft) (draft : Draft) :
    ofDrafts (drafts ++ [draft]) = (ofDrafts drafts).insert draft := by
  rw [ofDrafts, List.foldl_append]
  rfl

/-- The rows are numbered from one, and the last number is how many there are. -/
theorem rows_ofDrafts (drafts : List Draft) :
    (ofDrafts drafts).rows = drafts.mapIdx (fun i draft => ⟨draft, i + 1⟩) ∧
      (ofDrafts drafts).lastId = drafts.length := by
  induction drafts using List.reverseRecOn with
  | nil => exact ⟨rfl, rfl⟩
  | append_singleton drafts draft ih =>
      obtain ⟨hrows, hlast⟩ := ih
      rw [ofDrafts_concat, rows_insert, hrows, hlast, List.mapIdx_concat, List.length_append]
      refine ⟨rfl, ?_⟩
      show (ofDrafts drafts).lastId + 1 = _
      rw [hlast]
      rfl

theorem length_rows_ofDrafts (drafts : List Draft) :
    (ofDrafts drafts).rows.length = drafts.length := by
  rw [(rows_ofDrafts drafts).1, List.length_mapIdx]

/-- Each row is one that was put. -/
theorem toDraft_mem_of_mem_rows {drafts : List Draft} {row : Row} (h : row ∈ (ofDrafts drafts).rows) :
    row.toDraft ∈ drafts := by
  rw [(rows_ofDrafts drafts).1] at h
  obtain ⟨i, hi, rfl⟩ := List.mem_mapIdx.mp h
  exact List.getElem_mem hi

/-- A cutoff before all rows drops none. -/
theorem newerThan_eq_self {archive : Archive} {cutoff : Int}
    (h : ∀ row ∈ archive.rows, cutoff < row.createdAt) : archive.newerThan cutoff = archive := by
  obtain ⟨rows, lastId, ascending, bounded⟩ := archive
  have hall : rows.filter (fun row => cutoff < row.createdAt) = rows :=
    List.filter_eq_self.mpr fun row hrow => decide_eq_true (h row hrow)
  simp only [newerThan, hall]

/-- If the rows never go back in time, the newest are the last ones. -/
theorem recent_eq_take_reverse {archive : Archive} {cutoff : Int}
    (hnewer : ∀ row ∈ archive.rows, cutoff < row.createdAt)
    (h : archive.rows.Pairwise fun a b => a.createdAt ≤ b.createdAt) (limit : Nat) :
    archive.recent limit cutoff = archive.rows.reverse.take (min limit mostRows) := by
  have hlists : archive.Lists cutoff archive.rows.reverse := by
    refine lists_of_perm ?_ ?_
    · rw [newerThan_eq_self hnewer]
      exact List.reverse_perm _
    · -- of rows put at the same time the later one has the greater number
      rw [List.pairwise_reverse]
      refine (h.and archive.ascending).imp fun {a b} hab => ?_
      rw [Row.IsBefore]
      omega
  exact hlists.recent_eq limit

end Abacus.History.Archive
