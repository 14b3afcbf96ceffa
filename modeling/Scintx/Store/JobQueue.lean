/-
Scintx.Store.JobQueue — the job queue of the memory store
(`internal/scintx/job_queue_memory.go`).

One row a submission, filed under its id. A row is pending or leased; a
lease names its owner and its end. `ClaimJob` first re-pends EVERY
leased row whose end is past, then picks the oldest pending row along
the map's iteration order, which Go leaves open: `order` is any
enumeration of the table, and rows of one creation instant are picked
by whichever comes first in it.

Instants count nanoseconds from Go's zero time, so `IsZero` is `= 0`.

`ClaimJob` reads the clock BEFORE it takes the store's mutex, the other
calls read it inside. A call is one step here, at the clock value `at_`;
a claim carries the reading `now` it took earlier, and `Trace` asks only
`now ≤ at_` of it.
-/
import Scintx.Api.Types
import Scintx.Lib.Table

namespace Scintx.Store

open Scintx.Api

inductive JobStatus where
  | pending
  | leased
  deriving DecidableEq, Repr

structure MemJob where
  submissionID : String
  status : JobStatus
  createdAt : Time
  leaseOwner : String
  leaseUntil : Time
  attempts : Nat
  deriving DecidableEq, Repr

abbrev JobTable := Lib.Table String MemJob MemJob.submissionID

/-- `2 * time.Minute`. -/
def defaultLease : Duration := 120000000000

/-- The lease `ClaimJob` and `HeartbeatJob` grant for an argument. -/
def effectiveLease (lease : Duration) : Duration :=
  if lease ≤ 0 then defaultLease else lease

def enqueueJob (jobs : JobTable) (now : Time) (submissionID : String) :
    Except String JobTable :=
  if submissionID = "" then .error "empty submission id"
  else
    let fresh : MemJob :=
      { submissionID := submissionID, status := .pending, createdAt := now
        leaseOwner := "", leaseUntil := 0, attempts := 0 }
    match jobs.get? submissionID with
    | some j =>
      -- an active row is kept as it is
      if j.status = .pending ∨ j.status = .leased then .ok jobs
      else .ok (jobs.put fresh)
    | none => .ok (jobs.put fresh)

def deleteJob (jobs : JobTable) (submissionID : String) : JobTable :=
  jobs.erase submissionID

/-- A lease that ended strictly before `now` goes back to pending. -/
def MemJob.repend (now : Time) (j : MemJob) : MemJob :=
  if j.status = .leased ∧ j.leaseUntil ≠ 0 ∧ j.leaseUntil < now then
    { j with status := .pending, leaseOwner := "", leaseUntil := 0 }
  else j

theorem MemJob.repend_submissionID (now : Time) (j : MemJob) :
    (j.repend now).submissionID = j.submissionID := by
  unfold MemJob.repend
  split <;> rfl

/-- The first loop of `ClaimJob`. -/
def rependExpired (jobs : JobTable) (now : Time) : JobTable :=
  jobs.mapRows (MemJob.repend now) (MemJob.repend_submissionID now)

/-- One round of the second loop of `ClaimJob`: keep the older of the
best pending row so far and this one. -/
def pickRound (jobs : JobTable) (best : Option MemJob) (id : String) : Option MemJob :=
  match jobs.get? id with
  | none => best
  | some j =>
    if j.status ≠ .pending then best
    else
      match best with
      | none => some j
      | some b => if j.createdAt < b.createdAt then some j else some b

def pickOldest (jobs : JobTable) (order : List String) : Option MemJob :=
  order.foldl (pickRound jobs) none

def MemJob.claim (j : MemJob) (owner : String) (leaseEnd : Time) : MemJob :=
  { j with status := .leased, leaseOwner := owner, leaseUntil := leaseEnd
           attempts := j.attempts + 1 }

def claimJob (jobs : JobTable) (order : List String) (owner : String) (lease : Duration)
    (now : Time) : Except String (Option (String × Nat)) × JobTable :=
  if owner = "" then (.error "empty lease owner", jobs)
  else
    let jobs := rependExpired jobs now
    match pickOldest jobs order with
    | none => (.ok none, jobs)
    | some best =>
      let best := best.claim owner (now + effectiveLease lease)
      (.ok (some (best.submissionID, best.attempts)), jobs.put best)

def heartbeatJob (jobs : JobTable) (submissionID owner : String) (lease : Duration)
    (now : Time) : Bool × JobTable :=
  match jobs.get? submissionID with
  | none => (false, jobs)
  | some j =>
    if j.status ≠ .leased ∨ j.leaseOwner ≠ owner then (false, jobs)
    else (true, jobs.put { j with leaseUntil := now + effectiveLease lease })

def completeJob (jobs : JobTable) (submissionID owner : String) :
    Except String Unit × JobTable :=
  match jobs.get? submissionID with
  | none => (.ok (), jobs)
  | some j =>
    if j.status = .leased ∧ j.leaseOwner ≠ owner ∧ owner ≠ "" then
      (.error "job leased by another owner", jobs)
    else (.ok (), jobs.erase submissionID)

/-- Pending and leased rows, which is all of them. -/
def pendingJobCount (jobs : JobTable) : Nat :=
  jobs.rows.entries.countP fun e => e.2.status = .pending ∨ e.2.status = .leased

def hasJob (jobs : JobTable) (submissionID : String) : Bool := (jobs.get? submissionID).isSome

/-! ## Runs of the queue -/

inductive QueueOp where
  | enqueue (id : String)
  | claim (owner : String) (lease : Duration) (now : Time) (order : List String)
  | heartbeat (id owner : String) (lease : Duration)
  | complete (id owner : String)
  deriving DecidableEq, Repr

/-- What a call returns. -/
inductive QueueOut where
  | done
  | claimed (id : String) (attempts : Nat)
  | empty
  | beat (ok : Bool)
  | failed (cause : String)
  deriving DecidableEq, Repr

/-- One call at the clock value `at_`. -/
def QueueOp.exec : QueueOp → Time → JobTable → QueueOut × JobTable
  | .enqueue id, at_, jobs =>
    match enqueueJob jobs at_ id with
    | .ok jobs' => (.done, jobs')
    | .error e => (.failed e, jobs)
  | .claim owner lease now order, _, jobs =>
    match claimJob jobs order owner lease now with
    | (.ok none, jobs') => (.empty, jobs')
    | (.ok (some (id, n)), jobs') => (.claimed id n, jobs')
    | (.error e, jobs') => (.failed e, jobs')
  | .heartbeat id owner lease, at_, jobs =>
    ((.beat (heartbeatJob jobs id owner lease at_).1), (heartbeatJob jobs id owner lease at_).2)
  | .complete id owner, _, jobs =>
    match completeJob jobs id owner with
    | (.ok (), jobs') => (.done, jobs')
    | (.error e, jobs') => (.failed e, jobs')

/-- What the runtime guarantees of a call: a claim read the clock at or
before its step and loops along an enumeration of the table; a
completion names its owner. -/
def QueueOp.Legal (jobs : JobTable) (at_ : Time) : QueueOp → Prop
  | .claim _ _ now order => now ≤ at_ ∧ (rependExpired jobs now).Enumerates order
  | .complete _ owner => owner ≠ ""
  | _ => True

/-- A call with the table it met and what it returned. -/
structure Entry where
  pre : JobTable
  op : QueueOp
  at_ : Time
  out : QueueOut

/-- The runs of the queue under a non-decreasing clock, from a table and
a clock value, with their entries. -/
inductive Trace : JobTable → Time → List Entry → JobTable → Time → Prop
  | nil (jobs : JobTable) (clock : Time) : Trace jobs clock [] jobs clock
  | cons {jobs jobs' : JobTable} {clock clock' : Time} {es : List Entry} (op : QueueOp)
      (at_ : Time) (hclock : clock ≤ at_) (hlegal : op.Legal jobs at_)
      (rest : Trace (op.exec at_ jobs).2 at_ es jobs' clock') :
      Trace jobs clock (⟨jobs, op, at_, (op.exec at_ jobs).1⟩ :: es) jobs' clock'

end Scintx.Store
