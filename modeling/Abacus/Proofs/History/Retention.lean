import Abacus.Proofs.History.Unknown
import Abacus.Service

/-!
# Retention — what is shown and what is deleted make up the history

At any time the rows are those that are kept and those that are too old (`isKept`).  A look at the
history that leaves no row out shows the former and a cleanup deletes the latter, so no row is in both
classes or in neither, and a row that is too old stays so (`history_and_cleanup`).  A row that is kept
under a mode that there is not cannot be shown, and then nothing is; a cleanup does not look at modes.
-/

namespace Abacus

namespace History

/-- A row that is kept at a time was kept at every time before. -/
theorem isKept_of_le {createdAt now later : Int} (h : now ≤ later)
    (hkept : isKept createdAt later = true) : isKept createdAt now = true :=
  decide_eq_true (Int.lt_of_le_of_lt (cutoff_mono h) (of_decide_eq_true hkept))

namespace Archive

/-- The rows that are kept at the given time. -/
def keptRows (archive : Archive) (now : Int) : List Row :=
  archive.rows.filter fun row => isKept row.createdAt now

/-- The rows that are too old at the given time. -/
def oldRows (archive : Archive) (now : Int) : List Row :=
  archive.rows.filter fun row => !isKept row.createdAt now

theorem mem_keptRows {archive : Archive} {now : Int} {row : Row} :
    row ∈ archive.keptRows now ↔ row ∈ archive.rows ∧ isKept row.createdAt now = true :=
  List.mem_filter

/-- The rows are those that are kept and those that are too old. -/
theorem length_oldRows_add (archive : Archive) (now : Int) :
    (archive.oldRows now).length + (archive.keptRows now).length = archive.rows.length := by
  rw [Nat.add_comm, oldRows, keptRows, ← List.length_append]
  exact (List.filter_append_perm (fun row => isKept row.createdAt now) archive.rows).length_eq

/-- A limit that leaves no row out looks up the rows that are kept. -/
theorem recent_perm {archive : Archive} {limit : Nat} (h : archive.rows.length ≤ min limit mostRows)
    (now : Int) : (archive.recent limit (cutoff now)).Perm (archive.keptRows now) := by
  have hkept : (archive.newerThan (cutoff now)).rows.length ≤ archive.rows.length :=
    List.length_filter_le _ _
  rw [recent, List.take_of_length_le (by rw [List.length_mergeSort]; omega)]
  exact List.mergeSort_perm _ _

end Archive

/-! ## Cleaning up -/

/-- A cleanup deletes the rows that are too old and counts them. -/
theorem Store.cleanup_cutoff (archive : Archive) (now : Int) :
    Store.cleanup (cutoff now) (.working archive) =
      .ok ((archive.oldRows now).length, .working (archive.newerThan (cutoff now))) := by
  have hcount : archive.rows.length - (archive.newerThan (cutoff now)).rows.length =
      (archive.oldRows now).length := by
    have hlength := archive.length_oldRows_add now
    rw [show (archive.newerThan (cutoff now)).rows = archive.keptRows now from rfl]
    omega
  show Except.ok (archive.rows.length - (archive.newerThan (cutoff now)).rows.length, _) = _
  rw [hcount]

/-- After a cleanup no row is too old. -/
theorem Archive.oldRows_newerThan (archive : Archive) (now : Int) :
    (archive.newerThan (cutoff now)).oldRows now = [] := by
  refine List.filter_eq_nil_iff.mpr fun row hrow => ?_
  simp [(mem_keptRows.mp hrow).2]

/-- A cleanup of what a cleanup leaves changes nothing. -/
theorem Archive.newerThan_newerThan (archive : Archive) (cutoff : Int) :
    (archive.newerThan cutoff).newerThan cutoff = archive.newerThan cutoff := by
  simp [newerThan]

end History

/-! ## The service -/

namespace Service

open History (Archive Record Recorder Row Store cutoff isKept mostRows)

section Serving

variable {archive : Archive} {recorder : Recorder} {now : Int} {limit : Nat}

/-- The history is shown just if the rows that are kept are under modes that there are. -/
theorem exists_history_iff (h : archive.rows.length ≤ min limit mostRows) :
    (∃ records, history now limit ⟨.working archive, recorder⟩ = .ok records) ↔
      ∀ row ∈ archive.keptRows now, Mode.IsNamed row.mode := by
  show (∃ records, (Store.recent limit (cutoff now) (.working archive)).mapError _ =
    .ok records) ↔ _
  simp only [mapError_eq_ok_iff, Store.exists_recent_iff, (Archive.recent_perm h now).mem_iff]

/-- Otherwise it is the mode of such a row that cannot be shown. -/
theorem exists_of_history_eq_error {failure : Failure}
    (h : history now limit ⟨.working archive, recorder⟩ = .error failure) :
    ∃ row ∈ archive.keptRows now, ¬ Mode.IsNamed row.mode ∧
      failure = .historyRead (.unknownMode row.mode) := by
  obtain ⟨fault, hfault, rfl⟩ := mapError_eq_error_iff.mp h
  obtain ⟨row, hfirst, rfl⟩ := Store.recent_eq_error_iff.mp hfault
  obtain ⟨before, after, hrows, -, hmode⟩ := hfirst
  have hrow : row ∈ archive.recent limit (cutoff now) := by
    rw [hrows]
    exact List.mem_append_right before List.mem_cons_self
  obtain ⟨hmem, hnewer⟩ := Archive.mem_of_mem_recent hrow
  exact ⟨row, Archive.mem_keptRows.mpr ⟨hmem, decide_eq_true hnewer⟩, hmode, rfl⟩

/-- What is shown are the rows that are looked up. -/
theorem shown_of_history {records : List Record}
    (h : history now limit ⟨.working archive, recorder⟩ = .ok records) :
    List.Forall₂ Row.IsShownAs (archive.recent limit (cutoff now)) records :=
  (mapM_eq_ok_iff.mp (mapError_eq_ok_iff.mp h)).imp fun _ _ => Row.isShownAs_of_record

/-- What is shown at a later time is shown already, if no row is left out. -/
theorem mem_of_mem_history {later : Int} {limit' : Nat} {records records' : List Record}
    (hlater : now ≤ later) (hlimit : archive.rows.length ≤ min limit mostRows)
    (h : history now limit ⟨.working archive, recorder⟩ = .ok records)
    (h' : history later limit' ⟨.working archive, recorder⟩ = .ok records')
    {record : Record} (hrecord : record ∈ records') : record ∈ records := by
  have hfound := mapError_eq_ok_iff.mp h
  have hfound' := mapError_eq_ok_iff.mp h'
  obtain ⟨row, hrow, hshown⟩ := (mem_iff_of_mapM_eq_ok hfound').mp hrecord
  obtain ⟨hmem, hnewer⟩ := Archive.mem_of_mem_recent hrow
  have hkept := History.isKept_of_le hlater (decide_eq_true hnewer)
  refine (mem_iff_of_mapM_eq_ok hfound).mpr ⟨row, ?_, hshown⟩
  exact (Archive.recent_perm hlimit now).mem_iff.mpr (Archive.mem_keptRows.mpr ⟨hmem, hkept⟩)

/-- A cleanup deletes the rows that are too old, and leaves those that are kept. -/
theorem cleanup_working (archive : Archive) (recorder : Recorder) (now : Int) :
    cleanup now ⟨.working archive, recorder⟩ =
      (.ok (archive.oldRows now).length, ⟨.working (archive.newerThan (cutoff now)), recorder⟩) := by
  rw [cleanup, Store.cleanup_cutoff]

end Serving

/-- **What is shown and what is deleted** make up the rows.  If the rows that are kept are under modes
that there are, a look that leaves no row out shows just these, and otherwise it fails for one of them;
a cleanup deletes just the others and counts them, and another one finds none.  A row that is too old
stays so, and what is shown at a later time is shown already.  The limit counts as it is cut down, to a
number of rows that no database exceeds. -/
theorem history_and_cleanup (archive : Archive) (recorder : Recorder) {now later : Int}
    (hlater : now ≤ later) :
    (∀ limit, archive.rows.length ≤ min limit mostRows →
      ((∃ records, history now limit ⟨.working archive, recorder⟩ = .ok records) ↔
        ∀ row ∈ archive.rows, isKept row.createdAt now = true → Mode.IsNamed row.mode) ∧
      (∀ failure, history now limit ⟨.working archive, recorder⟩ = .error failure →
        ∃ row ∈ archive.rows, isKept row.createdAt now = true ∧ ¬ Mode.IsNamed row.mode ∧
          failure = .historyRead (.unknownMode row.mode)) ∧
      ∀ records, history now limit ⟨.working archive, recorder⟩ = .ok records →
        ∃ rows, rows.Perm (archive.rows.filter fun row => isKept row.createdAt now) ∧
          List.Forall₂ Row.IsShownAs rows records) ∧
    (∃ kept, kept.rows = archive.rows.filter (fun row => isKept row.createdAt now) ∧
      cleanup now ⟨.working archive, recorder⟩ =
        (.ok (archive.rows.filter fun row => !isKept row.createdAt now).length,
          ⟨.working kept, recorder⟩) ∧
      cleanup now ⟨.working kept, recorder⟩ = (.ok 0, ⟨.working kept, recorder⟩)) ∧
    (∀ row ∈ archive.rows, isKept row.createdAt now = false → isKept row.createdAt later = false) ∧
    ∀ limit limit' records records', archive.rows.length ≤ min limit mostRows →
      history now limit ⟨.working archive, recorder⟩ = .ok records →
      history later limit' ⟨.working archive, recorder⟩ = .ok records' →
        ∀ record ∈ records', record ∈ records := by
  refine ⟨fun limit hlimit => ⟨?_, fun failure hfailure => ?_, fun records hrecords => ?_⟩, ?_, ?_, ?_⟩
  · rw [exists_history_iff hlimit]
    simp only [Archive.mem_keptRows, and_imp]
  · obtain ⟨row, hrow, hmode, hfailure⟩ := exists_of_history_eq_error hfailure
    obtain ⟨hmem, hkept⟩ := Archive.mem_keptRows.mp hrow
    exact ⟨row, hmem, hkept, hmode, hfailure⟩
  · exact ⟨_, Archive.recent_perm hlimit now, shown_of_history hrecords⟩
  · refine ⟨_, rfl, cleanup_working archive recorder now, ?_⟩
    rw [cleanup_working, Archive.oldRows_newerThan, Archive.newerThan_newerThan]
    rfl
  · intro row _ hold
    exact Bool.eq_false_iff.mpr fun hkept =>
      Bool.eq_false_iff.mp hold (History.isKept_of_le hlater hkept)
  · intro limit limit' records records' hlimit hrecords hrecords' record
    exact mem_of_mem_history hlater hlimit hrecords hrecords'

/-- At the least moment there is, only the oldest row is too old, whatever the modes of the others. -/
theorem history_and_cleanup_least_moment :
    History.leastMoment ≤ 0 ∧
      ∃ kept, kept.rows =
          History.extremes.rows.filter (fun row => isKept row.createdAt History.leastMoment) ∧
        cleanup History.leastMoment ⟨.working History.extremes, .start 1⟩ =
          (.ok 1, ⟨.working kept, .start 1⟩) ∧
        cleanup History.leastMoment ⟨.working kept, .start 1⟩ = (.ok 0, ⟨.working kept, .start 1⟩) :=
  ⟨by decide, (history_and_cleanup History.extremes (.start 1)
    (show History.leastMoment ≤ 0 by decide)).2.1⟩

/-- A row that is kept under a mode that there is not is in the way of the history. -/
theorem not_history_of_unknown_mode :
    ¬ ∀ (archive : Archive) (recorder : Recorder) (now : Int) (limit : Nat),
      archive.rows.length ≤ limit →
        ∃ records rows, history now limit ⟨.working archive, recorder⟩ = .ok records ∧
          rows.Perm (archive.rows.filter fun row => isKept row.createdAt now) ∧
          List.Forall₂ Row.IsShownAs rows records := by
  intro h
  obtain ⟨records, -, hrecords, -⟩ :=
    h (Archive.empty.insert ⟨"1+1", "2", "binary", 0⟩) (.start 1) 0 1 (by decide)
  have hmodes := (exists_history_iff (by decide)).mp ⟨records, hrecords⟩
  exact absurd (hmodes _ (List.mem_cons_self ..)) (by rw [Mode.isNamed_iff]; decide)

end Service

end Abacus
