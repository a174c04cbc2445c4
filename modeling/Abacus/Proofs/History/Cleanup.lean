import Abacus.History.Retention
import Abacus.History.Store

/-!
# Cleanup — deleting what is no longer shown changes nothing that is shown

A read shows rows that are newer than a cutoff, and a cleanup deletes the others.  As long as the
clock does not go back, a cleanup deletes only rows that no later read would show.  Two runs that
differ in cleanups alone are followed side by side: their stores agree from some moment on
(`AgreeFrom`), and every later cutoff lies at or after that moment.
-/

namespace Abacus.History

/-! ## Runs by the clock -/

/-- A step of a run; a read and a cleanup are made at a reading of the clock. -/
inductive Step where
  | insert (draft : Draft)
  | read (limit : Nat) (now : Int)
  | cleanup (now : Int)
  | reopen
  deriving DecidableEq

namespace Step

/-- The operation of a step: both kinds of step with a clock use the same cutoff. -/
def operation : Step → Operation
  | .insert draft => .insert draft
  | .read limit now => .recent limit (cutoff now)
  | .cleanup now => .cleanup (cutoff now)
  | .reopen => .reopen

/-- The reading of the clock, if the step takes one. -/
def reading : Step → Option Int
  | .read _ now | .cleanup now => some now
  | .insert _ | .reopen => none

/-- The step shows the history. -/
def isRead : Step → Bool
  | .read _ _ => true
  | .insert _ | .cleanup _ | .reopen => false

end Step

/-- The clock does not go back along the run. -/
def InTime (steps : List Step) : Prop :=
  (steps.filterMap Step.reading).Pairwise (· ≤ ·)

/-- What the reads of a run answer, in order. -/
def shown (store : Store) (steps : List Step) : List (Except Store.Fault Operation.Answer) :=
  ((steps.zip (Operation.performAll store (steps.map Step.operation)).1).filter
    fun done => done.1.isRead).map Prod.snd

/-- The second run is the first without some of its cleanups. -/
inductive Thinned : List Step → List Step → Prop where
  | nil : Thinned [] []
  | keep {full thin : List Step} (step : Step) :
      Thinned full thin → Thinned (step :: full) (step :: thin)
  | drop {full thin : List Step} (now : Int) :
      Thinned full thin → Thinned (.cleanup now :: full) thin

/-- The first step answers if it is a read, and the others answer from the store after it. -/
theorem shown_cons (store : Store) (step : Step) (rest : List Step) :
    shown store (step :: rest) =
      (if step.isRead then [(step.operation.perform store).1] else []) ++
        shown (step.operation.perform store).2 rest := by
  cases step with
  | insert draft => rfl
  | read limit now => rfl
  | cleanup now => rfl
  | reopen => rfl

/-! ## Archives that agree from a moment on -/

namespace Archive

/-- The archives give the same number next, and have the same rows newer than the moment. -/
def AgreeFrom (low : Int) (first second : Archive) : Prop :=
  first.lastId = second.lastId ∧ (first.newerThan low).rows = (second.newerThan low).rows

variable {low high : Int} {first second : Archive}

/-- Of the rows newer than a moment those newer than a later one are all that are newer. -/
theorem rows_newerThan_newerThan (h : low ≤ high) (archive : Archive) :
    ((archive.newerThan low).newerThan high).rows = (archive.newerThan high).rows := by
  -- a row newer than the later moment is newer than the earlier one
  simp only [rows_newerThan, List.filter_filter]
  refine List.filter_congr fun row _ => ?_
  by_cases hnew : high < row.createdAt
  · simp [hnew, Int.lt_of_le_of_lt h hnew]
  · simp [hnew]

theorem AgreeFrom.refl (low : Int) (archive : Archive) : AgreeFrom low archive archive :=
  ⟨rfl, rfl⟩

/-- Agreement lasts. -/
theorem AgreeFrom.mono (h : AgreeFrom low first second) (hlow : low ≤ high) :
    AgreeFrom high first second := by
  refine ⟨h.1, ?_⟩
  rw [← rows_newerThan_newerThan hlow first, ← rows_newerThan_newerThan hlow second,
    rows_newerThan, h.2, ← rows_newerThan]

/-- An insertion gives both new rows the same number. -/
theorem AgreeFrom.insert (h : AgreeFrom low first second) (draft : Draft) :
    AgreeFrom low (first.insert draft) (second.insert draft) := by
  obtain ⟨hid, hrows⟩ := h
  refine ⟨congrArg (· + 1) hid, ?_⟩
  simp only [rows_newerThan, rows_insert, List.filter_append] at hrows ⊢
  rw [hrows, hid]

/-- A cleanup on one side deletes nothing that the archives agree on. -/
theorem AgreeFrom.newerThan_left (h : AgreeFrom low first second) (hlow : low ≤ high) :
    AgreeFrom high (first.newerThan high) second := by
  obtain ⟨hid, hrows⟩ := h.mono hlow
  exact ⟨hid, (rows_newerThan_newerThan (Int.le_refl high) first).trans hrows⟩

theorem AgreeFrom.symm (h : AgreeFrom low first second) : AgreeFrom low second first :=
  ⟨h.1.symm, h.2.symm⟩

/-- A cleanup on both sides. -/
theorem AgreeFrom.newerThan (h : AgreeFrom low first second) (hlow : low ≤ high) :
    AgreeFrom high (first.newerThan high) (second.newerThan high) :=
  ((h.newerThan_left hlow).symm.newerThan_left (Int.le_refl high)).symm

/-- From the moment on, the archives show the same. -/
theorem AgreeFrom.recent_eq (h : AgreeFrom low first second) (hlow : low ≤ high) (limit : Nat) :
    first.recent limit high = second.recent limit high := by
  rw [recent, recent, (h.mono hlow).2]

end Archive

/-! ## Stores that agree, step by step -/

/-- The stores agree from the moment on: both work, with archives that do, or both do not, for
the same reason. -/
def Store.AgreeFrom (low : Int) : Store → Store → Prop
  | .working first, .working second => first.AgreeFrom low second
  | .unavailable reason, .unavailable reason' => reason = reason'
  | _, _ => False

theorem Store.AgreeFrom.refl (low : Int) (store : Store) : store.AgreeFrom low store := by
  cases store with
  | working archive => exact Archive.AgreeFrom.refl low archive
  | unavailable reason => exact rfl

/-- Agreement of stores is agreement of their archives, or of their reasons. -/
theorem Store.AgreeFrom.cases {low : Int} {first second : Store} (h : first.AgreeFrom low second) :
    (∃ a b, first = .working a ∧ second = .working b ∧ a.AgreeFrom low b) ∨
      ∃ reason, first = .unavailable reason ∧ second = .unavailable reason := by
  cases first with
  | working a =>
      cases second with
      | working b => exact Or.inl ⟨a, b, rfl, rfl, h⟩
      | unavailable reason => exact h.elim
  | unavailable reason =>
      cases second with
      | working b => exact h.elim
      | unavailable reason' =>
          obtain rfl : reason = reason' := h
          exact Or.inr ⟨reason, rfl, rfl⟩

/-- The moment from which stores agree after a step: the cutoff of a step with a clock. -/
def Step.since (low : Int) (step : Step) : Int :=
  (step.reading.map cutoff).getD low

/-- The same step on both sides: the stores go on agreeing, and reads answer the same. -/
theorem Store.AgreeFrom.perform {low : Int} {first second : Store}
    (h : first.AgreeFrom low second) (step : Step) (hlow : low ≤ step.since low) :
    (step.operation.perform first).2.AgreeFrom (step.since low)
        (step.operation.perform second).2 ∧
      (step.isRead = true →
        (step.operation.perform first).1 = (step.operation.perform second).1) := by
  rcases h.cases with ⟨a, b, rfl, rfl, hab⟩ | ⟨reason, rfl, rfl⟩
  · cases step with
    | insert draft => exact ⟨hab.insert draft, fun hread => nomatch hread⟩
    | read limit now =>
        have hsame : a.recent limit (cutoff now) = b.recent limit (cutoff now) :=
          hab.recent_eq hlow limit
        refine ⟨hab.mono hlow, fun _ => ?_⟩
        show ((a.recent limit (cutoff now)).mapM record).map _ = _
        rw [hsame]
        rfl
    | cleanup now => exact ⟨hab.newerThan hlow, fun hread => nomatch hread⟩
    | reopen => exact ⟨hab, fun hread => nomatch hread⟩
  · cases step with
    | insert draft => exact ⟨rfl, fun _ => rfl⟩
    | read limit now => exact ⟨rfl, fun _ => rfl⟩
    | cleanup now => exact ⟨rfl, fun _ => rfl⟩
    | reopen => exact ⟨rfl, fun _ => rfl⟩

/-- A cleanup on the first side alone. -/
theorem Store.AgreeFrom.cleanup_left {low : Int} {first second : Store}
    (h : first.AgreeFrom low second) (now : Int) (hlow : low ≤ cutoff now) :
    ((Step.cleanup now).operation.perform first).2.AgreeFrom (cutoff now) second := by
  rcases h.cases with ⟨a, b, rfl, rfl, hab⟩ | ⟨reason, rfl, rfl⟩
  · exact hab.newerThan_left hlow
  · rfl

/-! ## Whole runs -/

/-- No reading of the run has a cutoff before the moment. -/
def NotBefore (low : Int) (steps : List Step) : Prop :=
  ∀ now ∈ steps.filterMap Step.reading, low ≤ cutoff now

/-- After a step with a clock, all later cutoffs lie at or after its own. -/
theorem notBefore_since {low : Int} {step : Step} {rest : List Step}
    (hlow : NotBefore low (step :: rest)) (htime : InTime (step :: rest)) :
    low ≤ step.since low ∧ NotBefore (step.since low) rest ∧ InTime rest := by
  rw [NotBefore] at hlow
  rw [InTime] at htime
  cases hreading : step.reading with
  | none =>
      rw [List.filterMap_cons_none hreading] at hlow htime
      rw [Step.since, hreading]
      exact ⟨Int.le_refl low, hlow, htime⟩
  | some now =>
      rw [List.filterMap_cons_some hreading] at hlow htime
      obtain ⟨hlater, htime⟩ := List.pairwise_cons.mp htime
      rw [Step.since, hreading]
      refine ⟨hlow now (List.mem_cons_self ..), ?_, htime⟩
      intro later hmem
      exact cutoff_mono (hlater later hmem)

/-- From stores that agree on all that the run can show, a run and the run without some of its
cleanups show the same. -/
theorem shown_eq_of_agreeFrom {full thin : List Step} (h : Thinned full thin) {low : Int}
    {first second : Store} (hagree : first.AgreeFrom low second) (hlow : NotBefore low full)
    (htime : InTime full) : shown first full = shown second thin := by
  -- the moment from which the stores agree moves on with the clock
  induction h generalizing low first second with
  | nil => rfl
  | @keep full thin step _ ih =>
      obtain ⟨hsince, hlater, htime⟩ := notBefore_since hlow htime
      obtain ⟨hnext, hanswer⟩ := hagree.perform step hsince
      rw [shown_cons, shown_cons, ih hnext hlater htime]
      by_cases hread : step.isRead = true
      · rw [if_pos hread, if_pos hread, hanswer hread]
      · rw [if_neg hread, if_neg hread]
  | @drop full thin now _ ih =>
      obtain ⟨hsince, hlater, htime⟩ := notBefore_since hlow htime
      rw [shown_cons]
      exact ih (hagree.cleanup_left now hsince) hlater htime

/-- **Cleanups are invisible.**  Leaving out any cleanups of a run on an empty store changes no
answer of a read, as long as the clock does not go back. -/
theorem shown_thinned {full thin : List Step} (htime : InTime full) (h : Thinned full thin) :
    shown .empty full = shown .empty thin := by
  refine shown_eq_of_agreeFrom h (Store.AgreeFrom.refl leastMoment .empty) ?_ htime
  intro now _
  exact Int.le_max_left _ _

/-- The newest row is deleted, and the next one gets the number after it all the same. -/
theorem shown_thinned_newest_deleted :
    let later : List Step :=
      [.insert ⟨"2+2", "4", "Standard", retention⟩, .reopen, .read 5 retention,
        .insert ⟨"3", "3", "graphing", retention⟩, .cleanup (retention + 1), .read 1 (retention + 1)]
    let full := .insert ⟨"1+1", "2", "standard", 0⟩ :: .cleanup retention :: later
    let thin := .insert ⟨"1+1", "2", "standard", 0⟩ :: later
    InTime full ∧ Thinned full thin ∧ shown .empty full = shown .empty thin := by
  intro later full thin
  have htime : InTime full := by
    rw [InTime]
    decide
  have hthin : Thinned full thin :=
    .keep _ (.drop _ (.keep _ (.keep _ (.keep _ (.keep _ (.keep _ (.keep _ .nil)))))))
  exact ⟨htime, hthin, shown_thinned htime hthin⟩

example : shown .empty [.insert ⟨"1+1", "2", "standard", 0⟩, .cleanup retention,
    .insert ⟨"2+2", "4", "Standard", retention⟩, .read 5 retention] =
      [.ok (.records [⟨2, "2+2", "4", .standard, retention⟩])] := by
  cbv

end Abacus.History
