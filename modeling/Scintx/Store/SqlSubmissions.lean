/-
Scintx.Store.SqlSubmissions — the submissions of the SQL store
(`internal/store/sql_ops.go`), and calls on both stores at once.

Each call is a transaction, statement by statement: what it returns after
a commit, and where it gives up and is rolled back. A row of `submissions`
holds a JSON text; here it holds the submission that the text decodes to,
and what is encoded is a copy. The statements that read one row by its
key, one after the other and outside a transaction
(`GetSubmissionByIdempotencyKey`), are a transaction that reads.

`BothSubmissions` runs the same calls on a memory store and a SQL store,
every transaction as a whole.
-/
import Scintx.Lib.Transaction
import Scintx.Store.Memory
import Scintx.Store.SqlJobQueue

namespace Scintx.Store

open Scintx.Lib Scintx.Lib.Transaction Scintx.Api

/-- The primary keys of the tables a call touches. -/
inductive RowKey where
  | submission (id : String)
  | idempotency (key : String)
  | job (submissionID : String)
  deriving DecidableEq, Repr

structure IdempotencyRow where
  submissionID : String
  requestHash : String
  deriving DecidableEq, Repr

abbrev RowType : RowKey → Type
  | .submission _ => Stored Submission
  | .idempotency _ => IdempotencyRow
  | .job _ => JobRow

abbrev SqlDb := Db RowKey RowType

inductive SqlError where
  | store (e : StoreError)
  /-- A key is bound to a submission that is not there. -/
  | missingSubmission (key : String)
  /-- `sql.ErrNoRows`. -/
  | noRows
  deriving DecidableEq, Repr

inductive Dialect where
  | sqlite
  | postgres
  deriving DecidableEq, Repr

namespace SQLStore

/-- A transaction that returns a value or an error. -/
abbrev Program (α : Type) := Tx RowKey RowType (Except SqlError α)

def failWith {α : Type} (e : StoreError) : Program α := .rollback (.error (.store e))

def putSubmission (sub : Submission) : Program Unit :=
  .exec (.upsert (.submission sub.id) (.of sub)) fun _ => .commit (.ok ())

def getSubmission (id : String) : Program (Option Submission) :=
  .exec (.select (.submission id)) fun body => .commit (.ok (body.map (·.val)))

/-! ## `PutSubmissionIdempotent` -/

/-- Two fingerprints that are both given and differ. -/
def conflicts (existingHash requestHash : String) : Prop :=
  existingHash ≠ "" ∧ requestHash ≠ "" ∧ existingHash ≠ requestHash

instance (existingHash requestHash : String) : Decidable (conflicts existingHash requestHash) :=
  inferInstanceAs (Decidable (_ ∧ _))

/-- The submission of a key that was bound at the start. -/
def loadExisting (key : String) (row : IdempotencyRow) : Program (Submission × Bool) :=
  .exec (.select (.submission row.submissionID)) fun
    | none => .rollback (.error (.missingSubmission key))
    | some body => .commit (.ok (body.val, false))

def replay (key requestHash : String) (row : IdempotencyRow) : Program (Submission × Bool) :=
  if conflicts row.requestHash requestHash then failWith .idempotencyConflict
  else loadExisting key row

def loadWinner (row : IdempotencyRow) : Program (Submission × Bool) :=
  .exec (.select (.submission row.submissionID)) fun
    | none => .rollback (.error .noRows)
    | some body => .commit (.ok (body.val, false))

def dropOrphan (sub : Submission) (row : IdempotencyRow) : Program (Submission × Bool) :=
  .exec (.deleteIf (.submission sub.id) fun _ => true) fun _ => loadWinner row

/-- Another transaction bound the key first. -/
def lostRace (key requestHash : String) (sub : Submission) : Program (Submission × Bool) :=
  .exec (.select (.idempotency key)) fun
    | none => .rollback (.error .noRows)
    | some row =>
      if conflicts row.requestHash requestHash then failWith .idempotencyConflict
      else dropOrphan sub row

def created (sub : Submission) : Program (Submission × Bool) :=
  .commit (.ok (cloneJSON sub, true))

def bindKey (key requestHash : String) (sub : Submission) : Program (Submission × Bool) :=
  .exec (.insertIgnore (.idempotency key) ⟨sub.id, requestHash⟩) fun affected =>
    if affected then created sub else lostRace key requestHash sub

def storeNew (key requestHash : String) (sub : Submission) : Program (Submission × Bool) :=
  .exec (.upsert (.submission sub.id) (.of sub)) fun _ =>
    if key = "" then created sub else bindKey key requestHash sub

/-- Returns the stored submission and whether it was created. -/
def putSubmissionIdempotent (key requestHash : String) (sub : Submission) :
    Program (Submission × Bool) :=
  if key = "" then storeNew key requestHash sub
  else
    .exec (.select (.idempotency key)) fun
      | some row => replay key requestHash row
      | none => storeNew key requestHash sub

/-! ## The other calls -/

def getSubmissionByIdempotencyKey (key : String) : Program (Option Submission) :=
  if key = "" then .commit (.ok none)
  else
    .exec (.select (.idempotency key)) fun
      | none => .commit (.ok none)
      | some row => getSubmission row.submissionID

def deleteJobs (id : String) : Program Unit :=
  .exec (.deleteIf (.job id) fun _ => true) fun _ => .commit (.ok ())

/-- The key goes only if it names the submission. -/
def deleteKey (id idempotencyKey : String) : Program Unit :=
  if idempotencyKey = "" then deleteJobs id
  else
    .exec (.deleteIf (.idempotency idempotencyKey) fun row => row.submissionID = id)
      fun _ => deleteJobs id

/-- Only a submission that never started is deleted, with its key. -/
def abandonSubmission (id idempotencyKey : String) : Program Unit :=
  .exec (.select (.submission id)) fun
    | none => failWith .abandonRejected
    | some body =>
      if body.val.status ≠ .accepted then failWith .abandonRejected
      else
        .exec (.deleteIf (.submission id) fun _ => true) fun affected =>
          if affected then deleteKey id idempotencyKey else failWith .abandonRejected

/-- With `FOR UPDATE` on Postgres. -/
def selectBody {α : Type} (d : Dialect) (id : String)
    (next : Option (Stored Submission) → Program α) : Program α :=
  match d with
  | .sqlite => .exec (.select (.submission id)) next
  | .postgres => .exec (.selectForUpdate (.submission id)) next

def claimResume (d : Dialect) (id : String) : Program Submission :=
  selectBody d id fun
    | none => failWith .resumeNotDeferred
    | some body =>
      if body.val.status ≠ .deferred then failWith .resumeNotDeferred
      else
        let sub := { body.val with status := .running }
        .exec (.update (.submission id) (.of sub)) fun _ => .commit (.ok sub)

/-- Back to deferred; a submission that is not running stays as it is. -/
def releaseResume (d : Dialect) (id : String) : Program Unit :=
  selectBody d id fun
    | none => .rollback (.ok ())
    | some body =>
      if body.val.status ≠ .running then .rollback (.ok ())
      else
        let sub := { body.val with status := .deferred
                                   completionReason := some .deferred
                                   completedAt := none }
        .exec (.update (.submission id) (.of sub)) fun _ => .commit (.ok ())

end SQLStore

/-! ## Calls on both stores -/

inductive SubmissionCall where
  | putIdempotent (key requestHash : String) (sub : Submission)
  | put (sub : Submission)
  | get (id : String)
  | getByKey (key : String)
  | abandon (id key : String)
  | claimResume (id : String)
  | releaseResume (id : String)

inductive SubmissionReply where
  | stored (sub : Submission) (created : Bool)
  | done
  | found (sub : Option Submission)
  | claimed (sub : Submission)
  | failed (e : SqlError)
  deriving DecidableEq

namespace SubmissionReply

def ofStored : Except SqlError (Submission × Bool) → SubmissionReply
  | .ok (sub, created) => .stored sub created
  | .error e => .failed e

def ofUnit : Except SqlError Unit → SubmissionReply
  | .ok () => .done
  | .error e => .failed e

def ofFound : Except SqlError (Option Submission) → SubmissionReply
  | .ok sub => .found sub
  | .error e => .failed e

def ofClaimed : Except SqlError Submission → SubmissionReply
  | .ok sub => .claimed sub
  | .error e => .failed e

end SubmissionReply

/-- An error of the memory store. -/
def memoryError {α : Type} : Except StoreError α → Except SqlError α
  | .ok a => .ok a
  | .error e => .error (.store e)

namespace SubmissionCall

/-- The call on the memory store. -/
def onMemory (m : MemoryStore) : SubmissionCall → SubmissionReply × MemoryStore
  | .putIdempotent key hash sub =>
    let r := m.putSubmissionIdempotent key hash sub
    (.ofStored (memoryError r.1), r.2)
  | .put sub => (.done, m.putSubmission sub)
  | .get id => (.found (m.getSubmission id), m)
  | .getByKey key => (.found (m.getSubmissionByIdempotencyKey key), m)
  | .abandon id key =>
    let r := m.abandonSubmission id key
    (.ofUnit (memoryError r.1), r.2)
  | .claimResume id =>
    let r := m.claimResume id
    (.ofClaimed (memoryError r.1), r.2)
  | .releaseResume id => (.done, m.releaseResume id)

/-- A transaction as a whole, and the reply it makes. -/
def reply {α : Type} (of : Except SqlError α → SubmissionReply) (t : SQLStore.Program α)
    (db : SqlDb) : SubmissionReply × SqlDb :=
  (of (t.run db).1, (t.run db).2)

/-- The same call on the SQL store. -/
def onSQL (d : Dialect) (db : SqlDb) : SubmissionCall → SubmissionReply × SqlDb
  | .putIdempotent key hash sub =>
    reply .ofStored (SQLStore.putSubmissionIdempotent key hash sub) db
  | .put sub => reply .ofUnit (SQLStore.putSubmission sub) db
  | .get id => reply .ofFound (SQLStore.getSubmission id) db
  | .getByKey key => reply .ofFound (SQLStore.getSubmissionByIdempotencyKey key) db
  | .abandon id key => reply .ofUnit (SQLStore.abandonSubmission id key) db
  | .claimResume id => reply .ofClaimed (SQLStore.claimResume d id) db
  | .releaseResume id => reply .ofUnit (SQLStore.releaseResume d id) db

end SubmissionCall

structure BothSubmissions where
  memory : MemoryStore := {}
  sql : SqlDb := fun _ => none
  /-- The key that each submission was last created under. -/
  createdUnder : GoMap String := ∅

namespace SubmissionCall

/-- A call as the server and the orchestrator make it: a submission is
created with an id that is not in use, and abandoned with the key it was
created under. -/
def Legal (s : BothSubmissions) : SubmissionCall → Prop
  | .putIdempotent _ _ sub => s.memory.submissions.get? sub.id = none
  | .abandon id key => ∀ k ∈ s.createdUnder.lookup id, key = k
  | _ => True

instance (s : BothSubmissions) : DecidablePred (Legal s)
  | .putIdempotent .. => inferInstanceAs (Decidable (_ = _))
  | .abandon id key => inferInstanceAs (Decidable (∀ k ∈ s.createdUnder.lookup id, key = k))
  | .put _ | .get _ | .getByKey _ | .claimResume _ | .releaseResume _ => .isTrue trivial

/-- The keys of the submissions after a call. -/
def creates (s : BothSubmissions) : SubmissionCall → GoMap String
  | .putIdempotent key hash sub =>
    match (s.memory.putSubmissionIdempotent key hash sub).1 with
    | .ok (_, true) => s.createdUnder.insert sub.id key
    | _ => s.createdUnder
  | _ => s.createdUnder

end SubmissionCall

/-- The same calls on both stores, from empty stores. -/
def submissionSys (d : Dialect) : Sys BothSubmissions SubmissionCall where
  init s := s = {}
  step c s :=
    if c.Legal s then
      some { memory := (c.onMemory s.memory).2
             sql := (c.onSQL d s.sql).2
             createdUnder := c.creates s }
    else none

end Scintx.Store
