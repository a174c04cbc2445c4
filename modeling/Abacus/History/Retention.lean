import Abacus.Calculation

/-!
# Retention — the rows of the history, and how long they are kept

A record is a calculation of the past as it is shown.  It is shown while it is less than two days
old, and cleaning up removes the others.  The boundary stays within the sixty-four-bit integers in
which time is counted.

Rows are kept in the order in which they were inserted.  Each gets the number after the greatest
one that was ever given, so numbers go up and none is given twice, whatever is deleted.  The mode
of a row is a text that need not name a mode.

A look at the rows takes its limit as a signed number of 64 bits.  A database counts and numbers its
rows within these too and is full when they are used up; here neither the rows nor their numbers
have a bound.
-/

namespace Abacus.History

/-! ## Records and their time -/

/-- A calculation of the past.  Time is counted in milliseconds from the start of 1970. -/
structure Record where
  id : Int
  expression : String
  result : String
  mode : Mode
  createdAt : Int
  deriving DecidableEq

/-- The least moment that can be told. -/
def leastMoment : Int := -0x8000000000000000

/-- For how many days records are kept. -/
def retentionDays : Nat := 2

/-- For how many milliseconds records are kept. -/
def retention : Int := retentionDays * 24 * 60 * 60 * 1000

/-- The newest moment that is too old at the given time. -/
def cutoff (now : Int) : Int :=
  max leastMoment (now - retention)

/-- A record of the given moment is shown at the given time. -/
def isKept (createdAt now : Int) : Bool :=
  cutoff now < createdAt

/-- The boundary never goes back. -/
theorem cutoff_mono {now later : Int} (h : now ≤ later) : cutoff now ≤ cutoff later := by
  unfold cutoff
  omega

/-! ## Rows -/

/-- What a row is inserted with. -/
structure Draft where
  expression : String
  result : String
  mode : String
  createdAt : Int
  deriving DecidableEq

/-- A row, with its number. -/
structure Row extends Draft where
  id : Nat
  deriving DecidableEq

/-- The rows, and the greatest number given so far. -/
structure Archive where
  rows : List Row
  lastId : Nat
  ascending : rows.Pairwise fun a b => a.id < b.id
  bounded : ∀ row ∈ rows, row.id ≤ lastId

/-- The greatest number of rows that can be asked for. -/
def mostRows : Nat := 0x7fffffffffffffff

/-- An entry as it is inserted at the given time. -/
def Draft.ofEntry (entry : Entry) (now : Int) : Draft :=
  ⟨entry.expression, entry.result, entry.mode.name, now⟩

namespace Archive

/-- No rows yet. -/
def empty : Archive where
  rows := []
  lastId := 0
  ascending := List.Pairwise.nil
  bounded := by simp

/-- Insert a row under the next number. -/
def insert (archive : Archive) (draft : Draft) : Archive where
  rows := archive.rows ++ [⟨draft, archive.lastId + 1⟩]
  lastId := archive.lastId + 1
  ascending := by
    refine List.pairwise_append.mpr ⟨archive.ascending, List.pairwise_singleton _ _, ?_⟩
    intro row h next hnext
    rw [List.mem_singleton.mp hnext]
    exact Nat.lt_succ_of_le (archive.bounded row h)
  bounded := by
    intro row h
    rcases List.mem_append.mp h with h | h
    · exact Nat.le_succ_of_le (archive.bounded row h)
    · obtain rfl := List.mem_singleton.mp h
      exact Nat.le_refl _

/-- Keep the rows that are newer than the cutoff. -/
def newerThan (archive : Archive) (cutoff : Int) : Archive where
  rows := archive.rows.filter fun row => cutoff < row.createdAt
  lastId := archive.lastId
  ascending := archive.ascending.filter _
  bounded := fun row h => archive.bounded row (List.mem_filter.mp h).1

/-- The first row is shown before the second: it is newer, or as new with the greater number. -/
def precedes (first second : Row) : Bool :=
  second.createdAt < first.createdAt ||
    (first.createdAt == second.createdAt && second.id ≤ first.id)

/-- At most `limit` rows that are newer than the cutoff, the newest first.  A limit that is greater
than the signed numbers of 64 bits is cut down to the greatest of them. -/
def recent (archive : Archive) (limit : Nat) (cutoff : Int) : List Row :=
  ((archive.newerThan cutoff).rows.mergeSort precedes).take (min limit mostRows)

/-- The rows and the greatest number make up an archive. -/
def ofRows? (rows : List Row) (lastId : Nat) : Option Archive :=
  if h : rows.Pairwise (fun a b => a.id < b.id) ∧ ∀ row ∈ rows, row.id ≤ lastId then
    some ⟨rows, lastId, h.1, h.2⟩
  else none

@[simp] theorem rows_empty : empty.rows = [] := rfl

@[simp] theorem rows_insert (archive : Archive) (draft : Draft) :
    (archive.insert draft).rows = archive.rows ++ [⟨draft, archive.lastId + 1⟩] := rfl

@[simp] theorem rows_newerThan (archive : Archive) (cutoff : Int) :
    (archive.newerThan cutoff).rows =
      archive.rows.filter fun row => cutoff < row.createdAt := rfl

/-- An archive is made up again from its rows. -/
@[simp] theorem ofRows?_rows (archive : Archive) :
    ofRows? archive.rows archive.lastId = some archive := by
  unfold ofRows?
  rw [dif_pos ⟨archive.ascending, archive.bounded⟩]

end Archive

end Abacus.History
