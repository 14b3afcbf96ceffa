/-
Scintx.Workers.LocalPool — the in-process worker pool
(`internal/workers/dispatcher.go`).

A `localPool` admits jobs through a semaphore channel: `Reserve` sends
one element into `sem`, and that element leaves `sem` again in one of
three other places: `Release`, a `Commit` that fails, or the deferred
receive of the worker that ran the job. Every client call takes the
pool's mutex, so a call is one step; a worker's receive from `jobs` and
its receive from `sem` are one step each, by the channel.

* A channel of empty structs is its length, so `sem` is a number.
* A token is the index at which `Reserve` filed it in `tokens`; the two
  flags it carries are the source's.
* `Submit` is `Reserve`, `Commit` and, when that failed, `Release`, each
  under the mutex for itself: `submit_eq_run` says so, hence a run of the
  pool's actions covers every interleaving of `Submit` calls as well.
* An unlimited pool (`MaxInflight = 0`) starts one goroutine a commit. A
  started goroutine that has not run yet stands in `jobs`, from which
  any of them may go first.
* The largest allocation of the Go runtime depends on the platform, so it
  is a parameter (`room`). That the machine may have less memory than
  that is left out.
-/
import Scintx.Lib.Transition

namespace Scintx.Workers

/-- The errors a dispatcher returns. -/
inductive DispatchError where
  | backpressure
  | poolClosed
  | tokenUsed
  | context (cause : String)
  | store (cause : String)
  deriving DecidableEq, Repr

def DispatchError.text : DispatchError → String
  | .backpressure => "job queue at capacity"
  | .poolClosed => "worker pool closed"
  | .tokenUsed => "admit token already used"
  | .context cause => cause
  | .store cause => cause

/-- The part of `workers.Config` that the local pool reads. Go's `int`s:
`Scintx.Workers.EnvConfig` says when the environment gives sizes in
order. -/
structure Config where
  maxInflight : Int
  workers : Int
  deriving DecidableEq, Repr

structure AdmitToken where
  released : Bool
  committed : Bool
  deriving DecidableEq, Repr

/-- Neither committed nor released: the token still holds its slot. -/
def AdmitToken.unused (t : AdmitToken) : Bool := !(t.released || t.committed)

structure LocalPool where
  /-- Capacity of both channels. -/
  maxInflight : Nat
  workers : Nat
  unlimited : Bool
  closed : Bool
  /-- Number of elements in the channel `sem`. -/
  sem : Nat
  /-- Contents of the channel `jobs`, oldest first. -/
  jobs : List String
  /-- The jobs inside `process`, one a busy worker. -/
  running : List String
  /-- Every token `Reserve` has issued. -/
  tokens : List AdmitToken
  deriving DecidableEq, Repr

/-- `make(chan T, n)` does not panic ("makechan: size out of range"), for
elements of `elemSize` bytes. `room` is what the runtime allocates at
most (`maxAlloc`), less the head of a channel. -/
def makechanOk (room : Nat) (elemSize n : Int) : Bool := decide (0 ≤ n ∧ elemSize * n ≤ room)

/-- `newLocalPool`. `none` is the panic of a `make`: an element of `sem`
takes no room, an element of `jobs` is a string of two words. -/
def newLocalPool (room : Nat) (cfg : Config) : Option LocalPool :=
  if cfg.maxInflight = 0 then
    some { maxInflight := 0, workers := 0, unlimited := true, closed := false
           sem := 0, jobs := [], running := [], tokens := [] }
  else
    let workers := if cfg.workers < 1 then 1 else cfg.workers
    let workers := if workers > cfg.maxInflight then cfg.maxInflight else workers
    if !makechanOk room 0 cfg.maxInflight then none
    else if !makechanOk room 16 cfg.maxInflight then none
    else
      some { maxInflight := cfg.maxInflight.toNat, workers := workers.toNat
             unlimited := false, closed := false
             sem := 0, jobs := [], running := [], tokens := [] }

namespace LocalPool

/-- File a fresh token and return its index. -/
def issue (p : LocalPool) : Nat × LocalPool :=
  (p.tokens.length, { p with tokens := p.tokens ++ [{ released := false, committed := false }] })

/-- `ctxErr` is `ctx.Err()` of the caller's context. -/
def reserve (p : LocalPool) (ctxErr : Option String) :
    Except DispatchError Nat × LocalPool :=
  match ctxErr with
  | some cause => (.error (.context cause), p)
  | none =>
    if p.closed then (.error .poolClosed, p)
    else if p.unlimited then (.ok p.issue.1, p.issue.2)
    else if p.sem < p.maxInflight then
      (.ok p.issue.1, { p.issue.2 with sem := p.sem + 1 })
    else (.error .backpressure, p)

/-- `admitToken.releaseLocked`. The receive from `sem` has a `default`
branch, so an empty `sem` is left as it is. -/
def releaseLocked (p : LocalPool) (i : Nat) : LocalPool :=
  match p.tokens[i]? with
  | none => p
  | some t =>
    if t.released || t.committed then p
    else
      let p := { p with tokens := p.tokens.set i { t with released := true } }
      if p.unlimited then p else { p with sem := p.sem - 1 }

def release (p : LocalPool) (i : Nat) : LocalPool := p.releaseLocked i

def commit (p : LocalPool) (i : Nat) (subID : String) :
    Except DispatchError Unit × LocalPool :=
  match p.tokens[i]? with
  | none => (.error .tokenUsed, p)
  | some t =>
    if t.released || t.committed then (.error .tokenUsed, p)
    else if p.closed then (.error .poolClosed, p.releaseLocked i)
    else if p.unlimited || p.jobs.length < p.maxInflight then
      (.ok (), { p with
        tokens := p.tokens.set i { t with committed := true }
        jobs := p.jobs ++ [subID] })
    else (.error .backpressure, p.releaseLocked i)

def submit (p : LocalPool) (ctxErr : Option String) (subID : String) :
    Except DispatchError Unit × LocalPool :=
  match p.reserve ctxErr with
  | (.error e, p) => (.error e, p)
  | (.ok tok, p) =>
    match p.commit tok subID with
    | (.error e, p) => (.error e, p.release tok)
    | (.ok (), p) => (.ok (), p)

def close (p : LocalPool) : LocalPool := { p with closed := true }

/-- A worker receives its next job: the oldest one of the channel, or any
started goroutine of an unlimited pool. -/
def take (p : LocalPool) (k : Nat) : Option (String × LocalPool) :=
  if p.unlimited || (k = 0 ∧ p.running.length < p.workers) then
    (p.jobs[k]?).map fun id =>
      (id, { p with jobs := p.jobs.eraseIdx k, running := p.running ++ [id] })
  else none

/-- `process` returned or panicked; the deferred `<-p.sem` blocks on an
empty channel. -/
def finish (p : LocalPool) (id : String) : Option LocalPool :=
  if id ∈ p.running then
    if p.unlimited then some { p with running := p.running.erase id }
    else if 0 < p.sem then
      some { p with running := p.running.erase id, sem := p.sem - 1 }
    else none
  else none

end LocalPool

/-! ## The pool under its clients and workers -/

inductive PoolAction where
  | reserve (ctxErr : Option String)
  | commit (tok : Nat) (subID : String)
  | release (tok : Nat)
  | close
  | take (k : Nat)
  | finish (id : String)
  deriving DecidableEq, Repr

def poolStep : PoolAction → LocalPool → Option LocalPool
  | .reserve ctxErr, p => some (p.reserve ctxErr).2
  | .commit tok subID, p => some (p.commit tok subID).2
  | .release tok, p => some (p.release tok)
  | .close, p => some p.close
  | .take k, p => (p.take k).map (·.2)
  | .finish id, p => p.finish id

/-- The runs of a pool with a positive `MaxInflight`: any clients call in
any order, between any steps of the workers. -/
def poolSys : Lib.Sys LocalPool PoolAction where
  init p := ∃ room cfg, 0 < cfg.maxInflight ∧ newLocalPool room cfg = some p
  step := poolStep

end Scintx.Workers
