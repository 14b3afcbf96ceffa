/-
Scintx.Workers.QueuePool — the worker pool over the shared job queue
(`internal/workers/queue.go`): its configuration and its admission.

Unlike a local pool a queue pool holds no jobs: the jobs are rows of the
store, and other processes see them. `Reserve` looks at the number of
rows and issues a token, `Commit` inserts the row. Between the two the
token holds NOTHING.

* Every method takes the pool's mutex, so a call is one step.
* A token is the index at which `Reserve` filed it in `tokens`.
* `PollInterval` is only slept for and left out.
* The counting of `Reserve` does not fail, as it never does in memory.
-/
import Scintx.Lib.Text
import Scintx.Store.JobQueue
import Scintx.Workers.LocalPool

namespace Scintx.Workers

open Scintx.Lib Scintx.Api Scintx.Store

/-- The part of `workers.Config` that a queue pool reads. -/
structure QueueConfig where
  maxInflight : Int := 0
  workers : Int := 1
  lease : Duration := 0
  maxPending : Int := 0
  maxAttempts : Int := 0
  workerID : String := ""
  deriving DecidableEq, Repr

structure QueuePool where
  workers : Nat
  lease : Duration
  maxPending : Int
  maxAttempts : Int
  owner : String
  closed : Bool
  /-- Every token `Reserve` has issued. -/
  tokens : List AdmitToken
  deriving DecidableEq, Repr

/-- `newQueuePool`; `defaultWorkerID` is made of the host, the process
and random digits. -/
def newQueuePool (cfg : QueueConfig) (defaultWorkerID : String) : QueuePool :=
  let workers := if cfg.workers < 1 then 1 else cfg.workers
  let workers :=
    if cfg.maxInflight > 0 ∧ workers > cfg.maxInflight then cfg.maxInflight else workers
  { workers := workers.toNat
    lease := if cfg.lease ≤ 0 then defaultLease else cfg.lease
    maxAttempts := if cfg.maxAttempts < 1 then 8 else cfg.maxAttempts
    maxPending :=
      if cfg.maxPending < 1 then
        if cfg.maxInflight = 0 then 1024 else max (wrapInt64 (cfg.maxInflight * 10)) 256
      else cfg.maxPending
    owner := if cfg.workerID = "" then defaultWorkerID else cfg.workerID
    closed := false
    tokens := [] }

namespace QueuePool

/-- The lease owner of the `n`th worker. -/
def workerOwner (p : QueuePool) (n : Nat) : String := p.owner ++ "-w" ++ toString n

def reserve (p : QueuePool) (jobs : JobTable) (ctxErr : Option String) :
    Except DispatchError Nat × QueuePool :=
  match ctxErr with
  | some cause => (.error (.context cause), p)
  | none =>
    if p.closed then (.error .poolClosed, p)
    else if p.maxPending ≤ pendingJobCount jobs then (.error .backpressure, p)
    else
      (.ok p.tokens.length,
        { p with tokens := p.tokens ++ [{ released := false, committed := false }] })

def commit (p : QueuePool) (jobs : JobTable) (now : Time) (i : Nat) (subID : String) :
    Except DispatchError Unit × QueuePool × JobTable :=
  match p.tokens[i]? with
  | none => (.error .tokenUsed, p, jobs)
  | some t =>
    if t.released || t.committed then (.error .tokenUsed, p, jobs)
    else if p.closed then
      (.error .poolClosed, { p with tokens := p.tokens.set i { t with released := true } }, jobs)
    else
      match enqueueJob jobs now subID with
      | .error cause => (.error (.store cause), p, jobs)
      | .ok jobs => (.ok (), { p with tokens := p.tokens.set i { t with committed := true } }, jobs)

def release (p : QueuePool) (i : Nat) : QueuePool :=
  match p.tokens[i]? with
  | none => p
  | some t =>
    if t.released || t.committed then p
    else { p with tokens := p.tokens.set i { t with released := true } }

def close (p : QueuePool) : QueuePool := { p with closed := true }

/-- A commit inserts its row, or fails and leaves the queue alone. -/
theorem commit_cases (p : QueuePool) (jobs : JobTable) (now : Time) (i : Nat) (subID : String) :
    ((p.commit jobs now i subID).1 = .ok () ∧
        enqueueJob jobs now subID = .ok (p.commit jobs now i subID).2.2) ∨
      ((∃ e, (p.commit jobs now i subID).1 = .error e) ∧
        (p.commit jobs now i subID).2.2 = jobs) := by
  unfold commit
  split
  · exact .inr ⟨⟨_, rfl⟩, rfl⟩
  · split
    · exact .inr ⟨⟨_, rfl⟩, rfl⟩
    · split
      · exact .inr ⟨⟨_, rfl⟩, rfl⟩
      · split
        · exact .inr ⟨⟨_, rfl⟩, rfl⟩
        · rename_i hok
          exact .inl ⟨rfl, hok⟩

end QueuePool

end Scintx.Workers
