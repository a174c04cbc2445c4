import Abacus.History.Retention

/-!
# Store — where the history is kept

A store that cannot be opened stands in for one that can, and answers every operation with the
reason.  Reading fails at the first row shown whose mode is none.
-/

namespace Abacus.History

/-- A store: its rows, or the reason why it cannot be used. -/
inductive Store where
  | working (archive : Archive)
  | unavailable (reason : String)

namespace Store

/-- Why an operation on the store fails. -/
inductive Fault where
  /-- A row has a mode that there is not. -/
  | unknownMode (mode : String)
  | unavailable (reason : String)
  deriving DecidableEq

/-- The wording of a fault. -/
def Fault.message : Fault → String
  | .unknownMode mode => "Unknown mode '" ++ mode ++ "' in history row"
  | .unavailable reason => "History store unavailable: " ++ reason

/-- A store without rows. -/
def empty : Store :=
  .working .empty

/-- The archive, if the store can be used. -/
def archive? : Store → Option Archive
  | .working archive => some archive
  | .unavailable _ => none

/-- A row as it is shown. -/
def record (row : Row) : Except Fault Record :=
  match Mode.parse row.mode with
  | .ok mode => .ok ⟨row.id, row.expression, row.result, mode, row.createdAt⟩
  | .error _ => .error (.unknownMode row.mode)

/-- At most `limit` records that are newer than the cutoff, the newest first. -/
def recent (limit : Nat) (cutoff : Int) : Store → Except Fault (List Record)
  | .working archive => (archive.recent limit cutoff).mapM record
  | .unavailable reason => .error (.unavailable reason)

/-- Insert a row. -/
def insert (draft : Draft) : Store → Except Fault Store
  | .working archive => .ok (.working (archive.insert draft))
  | .unavailable reason => .error (.unavailable reason)

/-- Delete the rows that are not newer than the cutoff, and count them. -/
def cleanup (cutoff : Int) : Store → Except Fault (Nat × Store)
  | .working archive =>
      let kept := archive.newerThan cutoff
      .ok (archive.rows.length - kept.rows.length, .working kept)
  | .unavailable reason => .error (.unavailable reason)

end Store

/-- An operation on a store. -/
inductive Operation where
  | insert (draft : Draft)
  | recent (limit : Nat) (cutoff : Int)
  | cleanup (cutoff : Int)
  /-- Close the store and open it again. -/
  | reopen
  deriving DecidableEq

namespace Operation

/-- What an operation answers. -/
inductive Answer where
  | done
  | records (found : List Record)
  | deleted (count : Nat)
  deriving DecidableEq

/-- Perform an operation.  One that fails leaves the store as it was. -/
def perform (store : Store) : Operation → Except Store.Fault Answer × Store
  | .insert draft =>
      match store.insert draft with
      | .ok next => (.ok .done, next)
      | .error fault => (.error fault, store)
  | .recent limit cutoff => ((store.recent limit cutoff).map .records, store)
  | .cleanup cutoff =>
      match store.cleanup cutoff with
      | .ok (count, next) => (.ok (.deleted count), next)
      | .error fault => (.error fault, store)
  | .reopen => (.ok .done, store)

/-- Perform operations one after the other. -/
def performAll (store : Store) : List Operation → List (Except Store.Fault Answer) × Store
  | [] => ([], store)
  | operation :: rest =>
      let (answer, next) := operation.perform store
      let (answers, last) := performAll next rest
      (answer :: answers, last)

end Operation

end Abacus.History
