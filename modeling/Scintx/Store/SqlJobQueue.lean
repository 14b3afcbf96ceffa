/-
Scintx.Store.SqlJobQueue — the job queue of the SQL store
(`internal/store/job_queue.go`), and calls on both queues at once.

Each statement is written with `Lib.Sql`, clause by clause. A call is one
transaction and takes place as a whole. Timestamps are stored as text
(RFC 3339 with nanoseconds) and compared as text; here a column holds the
INSTANT, so the comparison is that of the instants. SQLite and Postgres
differ in one clause of `ClaimJob`, `FOR UPDATE SKIP LOCKED`, which has
no effect on a transaction that runs alone.

`BothStores` runs the same calls on a memory store and a SQL store, with
one clock.
-/
import Scintx.Lib.Sql
import Scintx.Lib.Transition
import Scintx.Store.JobQueue

namespace Scintx.Store

open Scintx.Lib Scintx.Api

/-- A row of the table `jobs`; `lease_owner` and `lease_until` are
nullable. -/
structure JobRow where
  submissionID : String
  status : JobStatus
  createdAt : Time
  leaseOwner : Option String
  leaseUntil : Option Time
  attempts : Nat
  deriving DecidableEq, Repr

abbrev SqlJobTable := Table String JobRow JobRow.submissionID

namespace SQLStore

/-- `status = 'pending'`, `status = 'leased'`. -/
def statusIs (st : JobStatus) (r : JobRow) : Sql.Truth :=
  Sql.eq (some r.status) (some st)

/-- `submission_id = ?`. -/
def idIs (id : String) (r : JobRow) : Sql.Truth :=
  Sql.eq (some r.submissionID) (some id)

/-- `lease_owner = ?`. -/
def ownerIs (owner : String) (r : JobRow) : Sql.Truth :=
  Sql.eq r.leaseOwner (some owner)

def enqueueJob (jobs : SqlJobTable) (now : Time) (submissionID : String) :
    Except String SqlJobTable :=
  if submissionID = "" then .error "empty submission id"
  else
    .ok (Sql.insertIgnore
      { submissionID := submissionID, status := .pending, createdAt := now
        leaseOwner := none, leaseUntil := none, attempts := 0 } jobs)

def deleteJob (jobs : SqlJobTable) (submissionID : String) : SqlJobTable :=
  Sql.deleteWhere (idIs submissionID) jobs

/-- `status = 'leased' AND lease_until IS NOT NULL AND lease_until < ?`. -/
def expired (now : Time) (r : JobRow) : Sql.Truth :=
  Sql.and (statusIs .leased r)
    (Sql.and (Sql.isNotNull r.leaseUntil) (Sql.lt r.leaseUntil (some now)))

def rependExpired (jobs : SqlJobTable) (now : Time) : SqlJobTable :=
  Sql.update (expired now)
    (fun r => { r with status := .pending, leaseOwner := none, leaseUntil := none })
    (fun _ => rfl) jobs

/-- `submission_id = ? AND status = 'pending'`. -/
def claimable (id : String) (r : JobRow) : Sql.Truth :=
  Sql.and (idIs id r) (statusIs .pending r)

def leaseTo (id owner : String) (leaseEnd : Time) (jobs : SqlJobTable) : SqlJobTable :=
  Sql.update (claimable id)
    (fun r => { r with status := .leased, leaseOwner := some owner, leaseUntil := some leaseEnd
                       attempts := r.attempts + 1 })
    (fun _ => rfl) jobs

def claimJob (jobs : SqlJobTable) (order : List String) (owner : String) (lease : Duration)
    (now : Time) : Except String (Option (String × Nat)) × SqlJobTable :=
  if owner = "" then (.error "empty lease owner", jobs)
  else
    let pended := rependExpired jobs now
    match Sql.selectFirst (statusIs .pending) JobRow.createdAt pended order with
    -- sql.ErrNoRows: the transaction is committed
    | none => (.ok none, pended)
    | some best =>
      let id := best.submissionID
      let leased := leaseTo id owner (now + effectiveLease lease) pended
      if Sql.affected (claimable id) pended = 0 then (.ok none, leased)
      else
        match leased.get? id with
        | some r => (.ok (some (id, r.attempts)), leased)
        -- the error of Scan rolls the transaction back
        | none => (.error "sql: no rows in result set", jobs)

/-- `submission_id = ? AND status = 'leased' AND lease_owner = ?`. -/
def heldBy (id owner : String) (r : JobRow) : Sql.Truth :=
  Sql.and (idIs id r) (Sql.and (statusIs .leased r) (ownerIs owner r))

def heartbeatJob (jobs : SqlJobTable) (submissionID owner : String) (lease : Duration)
    (now : Time) : Bool × SqlJobTable :=
  (decide (0 < Sql.affected (heldBy submissionID owner) jobs),
    Sql.update (heldBy submissionID owner)
      (fun r => { r with leaseUntil := some (now + effectiveLease lease) }) (fun _ => rfl) jobs)

/-- `submission_id = ? AND (lease_owner = ? OR status = 'pending')`. -/
def completable (id owner : String) (r : JobRow) : Sql.Truth :=
  Sql.and (idIs id r) (Sql.or (ownerIs owner r) (statusIs .pending r))

/-- No answer says whether a row was deleted. -/
def completeJob (jobs : SqlJobTable) (submissionID owner : String) :
    Except String Unit × SqlJobTable :=
  if owner = "" then (.ok (), Sql.deleteWhere (idIs submissionID) jobs)
  else (.ok (), Sql.deleteWhere (completable submissionID owner) jobs)

/-- `status IN ('pending', 'leased')`. -/
def pendingJobCount (jobs : SqlJobTable) : Nat :=
  Sql.affected (fun r => Sql.or (statusIs .pending r) (statusIs .leased r)) jobs

end SQLStore

/-! ## Calls on both stores -/

inductive JobCall where
  | enqueue (id : String)
  | delete (id : String)
  /-- With the order in which each store goes through its rows. -/
  | claim (owner : String) (lease : Duration) (order sqlOrder : List String)
  | heartbeat (id owner : String) (lease : Duration)
  | complete (id owner : String)
  | pendingCount
  deriving DecidableEq, Repr

inductive JobReply where
  | done
  | claimed (job : Option (String × Nat))
  | beat (ok : Bool)
  | count (n : Nat)
  | failed (cause : String)
  deriving DecidableEq, Repr

/-- The reply of a call that returns an error or nothing, and one that
returns a claim. -/
def JobReply.ofUnit : Except String Unit → JobReply
  | .ok () => .done
  | .error e => .failed e

def JobReply.ofClaim : Except String (Option (String × Nat)) → JobReply
  | .ok job => .claimed job
  | .error e => .failed e

/-- The call at clock value `now`, on the memory store. -/
def JobCall.onMemory (now : Time) (jobs : JobTable) : JobCall → JobReply × JobTable
  | .enqueue id =>
    match enqueueJob jobs now id with
    | .ok jobs => (.done, jobs)
    | .error e => (.failed e, jobs)
  | .delete id => (.done, deleteJob jobs id)
  | .claim owner lease order _ =>
    (.ofClaim (claimJob jobs order owner lease now).1, (claimJob jobs order owner lease now).2)
  | .heartbeat id owner lease =>
    (.beat (heartbeatJob jobs id owner lease now).1, (heartbeatJob jobs id owner lease now).2)
  | .complete id owner =>
    (.ofUnit (completeJob jobs id owner).1, (completeJob jobs id owner).2)
  | .pendingCount => (.count (pendingJobCount jobs), jobs)

/-- The same call on the SQL store. -/
def JobCall.onSQL (now : Time) (jobs : SqlJobTable) : JobCall → JobReply × SqlJobTable
  | .enqueue id =>
    match SQLStore.enqueueJob jobs now id with
    | .ok jobs => (.done, jobs)
    | .error e => (.failed e, jobs)
  | .delete id => (.done, SQLStore.deleteJob jobs id)
  | .claim owner lease _ order =>
    (.ofClaim (SQLStore.claimJob jobs order owner lease now).1,
      (SQLStore.claimJob jobs order owner lease now).2)
  | .heartbeat id owner lease =>
    (.beat (SQLStore.heartbeatJob jobs id owner lease now).1,
      (SQLStore.heartbeatJob jobs id owner lease now).2)
  | .complete id owner =>
    (.ofUnit (SQLStore.completeJob jobs id owner).1, (SQLStore.completeJob jobs id owner).2)
  | .pendingCount => (.count (SQLStore.pendingJobCount jobs), jobs)

structure BothStores where
  memory : JobTable
  sql : SqlJobTable
  /-- The instants of the `EnqueueJob` calls so far. -/
  enqueuedAt : List Time

/-- A claim goes through all rows, in any order. -/
def JobCall.Legal (s : BothStores) (now : Time) : JobCall → Prop
  | .claim _ _ order sqlOrder =>
    (rependExpired s.memory now).Enumerates order ∧
      (SQLStore.rependExpired s.sql now).Enumerates sqlOrder
  | _ => True

instance (s : BothStores) (now : Time) : DecidablePred (JobCall.Legal s now)
  | .claim _ _ _ _ => inferInstanceAs (Decidable (_ ∧ _))
  | .enqueue _ | .delete _ | .heartbeat .. | .complete .. | .pendingCount => .isTrue trivial

def JobCall.isEnqueue : JobCall → Bool
  | .enqueue _ => true
  | _ => false

/-- The same calls on both stores, from empty queues. -/
def bothSys : Sys BothStores (JobCall × Time) where
  init s := s = { memory := .empty, sql := .empty, enqueuedAt := [] }
  step a s :=
    if a.1.Legal s a.2 then
      some { memory := (a.1.onMemory a.2 s.memory).2
             sql := (a.1.onSQL a.2 s.sql).2
             enqueuedAt := if a.1.isEnqueue then a.2 :: s.enqueuedAt else s.enqueuedAt }
    else none

end Scintx.Store
