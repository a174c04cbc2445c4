import Abacus.Proofs.History.Order

/-!
# Unknown modes — when the history cannot be shown

A row can be put under any text, and only a text that names a mode in some case of its ASCII letters
can be shown.  Showing the history fails just if one of the rows that are looked up has another text,
and the fault has the text of the first of them as it was put (`recent_eq_error_iff`).  What lies beyond
the limit or is not newer than the cutoff is not looked at, and the store stays as it was
(`performAll_recent_fails_iff`).
-/

namespace Abacus

/-- The text is the name of a mode, up to the case of its ASCII letters. -/
def Mode.IsNamed (text : String) : Prop :=
  ∃ mode : Mode, lowered text = mode.name

theorem Mode.isNamed_iff {text : String} :
    IsNamed text ↔ lowered text = "standard" ∨ lowered text = "scientific" := by
  constructor
  · rintro ⟨mode, hmode⟩
    cases mode with
    | standard => exact Or.inl hmode
    | scientific => exact Or.inr hmode
  · rintro (h | h)
    · exact ⟨.standard, h⟩
    · exact ⟨.scientific, h⟩

/-- A text is read as a mode just if it names one. -/
theorem Mode.exists_parse_iff {text : String} : (∃ mode, parse text = .ok mode) ↔ IsNamed text := by
  rw [isNamed_iff, parse, ofName?]
  by_cases hstandard : lowered text = "standard"
  · rw [if_pos hstandard]
    exact iff_of_true ⟨_, rfl⟩ (Or.inl hstandard)
  · rw [if_neg hstandard]
    by_cases hscientific : lowered text = "scientific"
    · rw [if_pos hscientific]
      exact iff_of_true ⟨_, rfl⟩ (Or.inr hscientific)
    · rw [if_neg hscientific]
      refine iff_of_false ?_ (not_or.mpr ⟨hstandard, hscientific⟩)
      rintro ⟨mode, h⟩
      exact nomatch h

namespace History

/-- The row is the first one of the list whose text names no mode. -/
def IsFirstUnknown (rows : List Row) (row : Row) : Prop :=
  ∃ before after, rows = before ++ row :: after ∧
    (∀ earlier ∈ before, Mode.IsNamed earlier.mode) ∧ ¬ Mode.IsNamed row.mode

/-- A list with a text that names no mode has a first one. -/
theorem exists_isFirstUnknown_iff {rows : List Row} :
    (∃ row, IsFirstUnknown rows row) ↔ ∃ row ∈ rows, ¬ Mode.IsNamed row.mode := by
  constructor
  · rintro ⟨row, before, after, rfl, -, hrow⟩
    exact ⟨row, List.mem_append_right before List.mem_cons_self, hrow⟩
  · intro h
    induction rows with
    | nil =>
        obtain ⟨row, hrow, -⟩ := h
        exact (List.not_mem_nil hrow).elim
    | cons first rest ih =>
        by_cases hfirst : Mode.IsNamed first.mode
        · obtain ⟨row, hrow, hmode⟩ := h
          have hrest : row ∈ rest := by
            refine (List.mem_cons.mp hrow).resolve_left ?_
            rintro rfl
            exact hmode hfirst
          obtain ⟨row, before, after, rfl, hbefore, hrow⟩ := ih ⟨row, hrest, hmode⟩
          exact ⟨row, first :: before, after, rfl, List.forall_mem_cons.mpr ⟨hfirst, hbefore⟩, hrow⟩
        · exact ⟨first, [], rest, rfl, List.forall_mem_nil _, hfirst⟩

/-! ## Rows -/

/-- A row can be shown just if its text names a mode. -/
theorem Store.exists_record_iff {row : Row} :
    (∃ shown, Store.record row = .ok shown) ↔ Mode.IsNamed row.mode := by
  rw [← Mode.exists_parse_iff]
  constructor
  · rintro ⟨shown, h⟩
    obtain ⟨mode, hmode, -⟩ := record_eq_ok_iff.mp h
    exact ⟨mode, hmode⟩
  · rintro ⟨mode, hmode⟩
    exact ⟨_, record_eq_ok_iff.mpr ⟨mode, hmode, rfl⟩⟩

/-- Otherwise the fault has the text as it was put. -/
theorem Store.record_eq_error_iff {row : Row} {fault : Fault} :
    Store.record row = .error fault ↔ ¬ Mode.IsNamed row.mode ∧ fault = .unknownMode row.mode := by
  rw [← Mode.exists_parse_iff, record]
  cases Mode.parse row.mode with
  | ok mode => simp
  | error lower => simp [eq_comm]

/-! ## The rows that are looked up -/

section Looking

variable {archive : Archive} {limit : Nat} {cutoff : Int}

/-- **Showing the history fails** at the first of the rows looked up whose text names no mode. -/
theorem Store.recent_eq_error_iff {fault : Fault} :
    recent limit cutoff (.working archive) = .error fault ↔
      ∃ row, IsFirstUnknown (archive.recent limit cutoff) row ∧ fault = .unknownMode row.mode := by
  show (archive.recent limit cutoff).mapM record = .error fault ↔ _
  simp only [mapM_eq_error_iff, exists_record_iff, record_eq_error_iff, IsFirstUnknown]
  constructor
  · rintro ⟨before, row, after, hrows, hbefore, hrow, hfault⟩
    exact ⟨row, ⟨before, after, hrows, hbefore, hrow⟩, hfault⟩
  · rintro ⟨row, ⟨before, after, hrows, hbefore, hrow⟩, hfault⟩
    exact ⟨before, row, after, hrows, hbefore, hrow, hfault⟩

/-- It succeeds just if the texts of all of them name modes. -/
theorem Store.exists_recent_iff :
    (∃ found, recent limit cutoff (.working archive) = .ok found) ↔
      ∀ row ∈ archive.recent limit cutoff, Mode.IsNamed row.mode := by
  simp only [← exists_record_iff]
  exact exists_mapM_iff

end Looking

/-- Looking at the history is not noticed by what comes after it. -/
theorem Operation.performAll_recent (store : Store) (limit : Nat) (cutoff : Int)
    (rest : List Operation) :
    performAll store (.recent limit cutoff :: rest) =
      (((Operation.recent limit cutoff).perform store).1 :: (performAll store rest).1,
        (performAll store rest).2) := rfl

/-- **A mode that there is not** stops a look at the history just if one of the first rows of the list,
up to the limit, is under it, and the fault tells the first of these texts as it was put.  No other row
is a reason to fail, and what is asked afterwards is answered as if the history had not been looked
at. -/
theorem performAll_recent_fails_iff (archive : Archive) (cutoff : Int) :
    ∃ listed, (∀ other, archive.Lists cutoff other ↔ other = listed) ∧
      ∀ limit rest, ∃ answer,
        Operation.performAll (.working archive) (.recent limit cutoff :: rest) =
          (answer :: (Operation.performAll (.working archive) rest).1,
            (Operation.performAll (.working archive) rest).2) ∧
        (∀ fault, answer = .error fault ↔
          ∃ row, IsFirstUnknown (listed.take (min limit mostRows)) row ∧
            fault = .unknownMode row.mode) ∧
        ((∃ text, answer = .error (.unknownMode text)) ↔
          ∃ row ∈ listed.take (min limit mostRows), ¬ Mode.IsNamed row.mode) ∧
        (archive.rows.length ≤ mostRows →
          listed.take (min limit mostRows) = listed.take limit) := by
  have hlists := archive.lists_mergeSort cutoff
  refine ⟨_, fun other => ⟨hlists.unique, ?_⟩, fun limit rest =>
    ⟨_, Operation.performAll_recent _ limit cutoff rest, ?_, ?_,
      fun hrows => take_min_mostRows (Nat.le_trans hlists.length_le hrows) limit⟩⟩
  · rintro rfl
    exact hlists
  · intro fault
    rw [← hlists.recent_eq limit, ← Store.recent_eq_error_iff]
    exact map_eq_error_iff
  · rw [← hlists.recent_eq limit, ← exists_isFirstUnknown_iff]
    constructor
    · rintro ⟨text, htext⟩
      obtain ⟨row, hrow, -⟩ := Store.recent_eq_error_iff.mp (map_eq_error_iff.mp htext)
      exact ⟨row, hrow⟩
    · rintro ⟨row, hrow⟩
      exact ⟨row.mode, map_eq_error_iff.mpr (Store.recent_eq_error_iff.mpr ⟨row, hrow, rfl⟩)⟩

/-- The third of the newest rows is under no mode. -/
example : Store.recent 3 (-0x8000000000000000) (.working extremes) =
    .error (.unknownMode "binary") := by
  cbv

end History

end Abacus
