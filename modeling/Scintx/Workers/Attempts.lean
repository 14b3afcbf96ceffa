/-
Scintx.Workers.Attempts — how often a job is tried: `claimLoop` and
`runClaimed` (`internal/workers/queue.go`) over either job queue.

`Workers.RunClaimed` has the worker on the memory store with all that a
run of `Process` does. Here the store is any `JobStore`, and the calls
that do not touch the queue are choices: what `GetSubmission` answers,
when `Process` returns. Anyone else may make any call at any time, so
runs of this system include those of every gateway in queue mode.
`WorkerPc.step_view` says so of the worker.

A row comes and goes: the `ClaimLedger` notes which rows were created and
which claims were made, and tells the rows of one submission apart by the
number of rows created before. No step reads it.
-/
import Scintx.Store.JobCounts
import Scintx.Workers.Failures

namespace Scintx.Workers

open Scintx.Lib Scintx.Api Scintx.Store Scintx.Orchestrator

/-! ## The ledger -/

/-- What a `ClaimJob` returned, and which row of that id it was about. -/
structure Claim where
  id : String
  attempts : Nat
  row : Nat
  deriving DecidableEq, Repr

def Claim.ofRow (id : String) (row : Nat) (c : Claim) : Bool := c.id = id ∧ c.row = row

structure ClaimLedger where
  /-- The ids of the rows created so far, the last one first. -/
  created : List String := []
  claims : List Claim := []

/-- The row of an id that was created last. -/
def ClaimLedger.rowOf (l : ClaimLedger) (id : String) : Nat := l.created.count id

/-- The claim a reply stands for. -/
def ClaimLedger.ticket (l : ClaimLedger) (reply : JobReply) : Option Claim :=
  reply.job.map fun job => { id := job.1, attempts := job.2, row := l.rowOf job.1 }

/-- The row a call creates, given the counters it met. -/
def creates (f : String → Option Nat) (reply : JobReply) : JobCall → Option String
  | .enqueue id => if reply = .done ∧ f id = none then some id else none
  | _ => none

def ClaimLedger.note (l : ClaimLedger) (f : String → Option Nat) (call : JobCall)
    (reply : JobReply) : ClaimLedger where
  created := (creates f reply call).toList ++ l.created
  claims := (l.ticket reply).toList ++ l.claims

/-! ## Workers -/

/-- What `GetSubmission` answers. -/
inductive ReadAnswer where
  | failed
  | missing
  | found (status : SubmissionStatus)
  deriving DecidableEq, Repr

/-- Where a worker is. -/
inductive LoopPc where
  | polling
  | claiming
  | claimed (c : Claim)
  | exceeded (c : Claim)
  | processing (c : Claim)
  | completing (c : Claim)
  | stopped
  deriving DecidableEq, Repr

/-- The choices a step leaves open. -/
structure LoopChoice where
  /-- `workCtx` is done. -/
  cancelled : Bool := false
  /-- The failure of the step's call on the queue. -/
  storeErr : Option String := none
  read : ReadAnswer := .missing
  now : Time := 0
  order : List String := []
  deriving DecidableEq, Repr

/-- The call on the queue that a worker makes next. -/
def LoopPc.call (p : QueuePool) (owner : String) (order : List String) : LoopPc → Option JobCall
  | .claiming => some (.claim owner p.lease order order)
  | .completing c => some (.complete c.id owner)
  | _ => none

/-- Where a worker goes, given the reply to its call. The claim it holds
is the one the ledger notes. -/
def LoopPc.next (p : QueuePool) (l : ClaimLedger) (ch : LoopChoice) (reply : JobReply) :
    LoopPc → Option LoopPc
  | .polling => some (if p.closed ∨ ch.cancelled then .stopped else .claiming)
  | .claiming =>
    match l.ticket reply with
    | some c => some (.claimed c)
    | none => some .polling
  | .claimed c =>
    match ch.read with
    | .failed | .missing => some (.completing c)
    | .found status =>
      if status = .completed ∨ status = .failed then some (.completing c)
      else if p.maxAttempts < c.attempts then some (.exceeded c)
      else some (.processing c)
  -- `PutSubmission`, whose error is ignored
  | .exceeded c => some (.completing c)
  -- `Process` returned
  | .processing c => some (.completing c)
  | .completing _ => some .polling
  | .stopped => none

/-- The claim for which a step invokes `Process`. -/
def LoopPc.invokes : LoopPc → LoopPc → Option Claim
  | .claimed _, .processing c => some c
  | _, _ => none

/-- A panic in `runClaimed` is recovered, and the loop goes on. -/
def LoopPc.recovered : LoopPc → Option LoopPc
  | .claimed _ | .exceeded _ | .processing _ | .completing _ => some .polling
  | _ => none

structure LoopWorker where
  process : Nat
  number : Nat
  pc : LoopPc
  deriving DecidableEq, Repr

/-! ## Runs in queue mode -/

structure AttemptState where
  jobs : JobStore
  /-- One a process. -/
  pools : List QueuePool
  workers : List LoopWorker
  ledger : ClaimLedger
  /-- The invocations of `Process`, each with the claim it follows. -/
  invocations : List Claim

inductive AttemptAction where
  | boot (cfg : QueueConfig) (defaultWorkerID : String)
  | start (g n : Nat)
  | worker (i : Nat) (ch : LoopChoice)
  | heartbeat (i : Nat) (id : String) (now : Time)
  | panic (i : Nat)
  | crash (i : Nat)
  | close (g : Nat)
  -- a call of anyone else, such as the handlers' `EnqueueJob`
  | outside (call : JobCall) (now : Time)
  deriving DecidableEq

namespace AttemptState

/-- A call on the queue, noted in the ledger. -/
def perform (s : AttemptState) (now : Time) (call : JobCall) : JobReply × AttemptState :=
  ((s.jobs.call now call).1,
    { s with
      jobs := (s.jobs.call now call).2
      ledger := s.ledger.note s.jobs.attempts call (s.jobs.call now call).1 })

/-- What a worker's step gets for its call, if it makes one. -/
def answer (s : AttemptState) (call : Option JobCall) (ch : LoopChoice) :
    JobReply × AttemptState :=
  match ch.storeErr with
  | some cause => (.failed cause, s)
  | none =>
    match call with
    | some call => s.perform ch.now call
    | none => (.done, s)

/-- A step of the `i`th worker. -/
def turn (s : AttemptState) (i : Nat) (w : LoopWorker) (p : QueuePool) (ch : LoopChoice) :
    Option AttemptState :=
  let answered := s.answer (w.pc.call p (p.workerOwner w.number) ch.order) ch
  (w.pc.next p s.ledger ch answered.1).map fun pc =>
    { answered.2 with
      workers := s.workers.set i { w with pc := pc }
      invocations := (w.pc.invokes pc).toList ++ s.invocations }

end AttemptState

def attemptStep : AttemptAction → AttemptState → Option AttemptState
  | .boot cfg workerID, s => some { s with pools := s.pools ++ [newQueuePool cfg workerID] }
  | .start g n, s =>
    some { s with workers := s.workers ++ [{ process := g, number := n, pc := .polling }] }
  | .worker i ch, s =>
    (s.workers[i]?).bind fun w => (s.pools[w.process]?).bind fun p => s.turn i w p ch
  | .heartbeat i id now, s =>
    (s.workers[i]?).bind fun w => (s.pools[w.process]?).map fun p =>
      (s.perform now (.heartbeat id (p.workerOwner w.number) p.lease)).2
  | .panic i, s =>
    (s.workers[i]?).bind fun w => w.pc.recovered.map fun pc =>
      { s with workers := s.workers.set i { w with pc := pc } }
  | .crash i, s =>
    (s.workers[i]?).map fun w => { s with workers := s.workers.set i { w with pc := .stopped } }
  | .close g, s =>
    (s.pools[g]?).map fun p => { s with pools := s.pools.set g p.close }
  | .outside call now, s => some (s.perform now call).2

/-- From an empty queue, before any process has started. -/
def attemptSys : Sys AttemptState AttemptAction where
  init s := (∀ id, s.jobs.attempts id = none) ∧ s.pools = [] ∧ s.workers = [] ∧
    s.ledger = {} ∧ s.invocations = []
  step := attemptStep

/-- Processes are configured with `max` as their `MaxAttempts`. -/
def SameMax (max : Int) (_ : AttemptState) : AttemptAction → Prop
  | .boot cfg _ => cfg.maxAttempts = max
  | _ => True

instance (max : Int) (s : AttemptState) : DecidablePred (SameMax max s)
  | .boot cfg _ => inferInstanceAs (Decidable (cfg.maxAttempts = max))
  | .start .. | .worker .. | .heartbeat .. | .panic _ | .crash _ | .close _ | .outside .. =>
    .isTrue trivial

/-- The bound a pool makes of its configuration. -/
def attemptBound (max : Int) : Int := if max < 1 then 8 else max

end Scintx.Workers
