/-
Scintx.System.Local — a gateway in local mode: handlers, the pool and the
workers on one store.

A state is the shared world, the pool and a list of threads. A thread is
a handler or a worker that runs `Process`; what a scheduler, a client
and the outside choose is in the action. So an interleaving is a list of
actions, and shutdown is among them: the pool may be closed at any time,
and a run may find its context cancelled at any of its checks.

Submission ids are drawn at random; a state records all that were drawn,
and none is drawn twice.
-/
import Scintx.System.Parties

namespace Scintx.System

open Scintx.Lib Scintx.Api Scintx.Store Scintx.Orchestrator Scintx.Workers Scintx.Server

/-- The pool as the handlers' dispatcher. -/
def localDispatcher : Dispatcher LocalPool where
  reserve ctxErr p _ := p.reserve ctxErr
  commit _ tok subID p w := ((p.commit tok subID).1, (p.commit tok subID).2, w)
  release tok p := p.release tok

inductive LocalThread where
  | handler (h : Handler)
  | worker (r : Run) (env : RunEnv)
  | ended

structure LocalState where
  world : World
  pool : LocalPool
  threads : List LocalThread
  /-- The submission ids drawn so far. -/
  issued : List String

inductive LocalAction where
  -- a request comes in
  | create (req : CreateRequest) (hash id : String) (now : Time)
  | resume (id : String)
  | adjudicate (id : String) (req : AdjudicateRequest)
  -- a handler makes its next call
  | handler (i : Nat) (ch : HandlerChoice)
  -- a worker takes a job, its run makes a step, it is done
  | take (k : Nat) (env : RunEnv)
  | run (i : Nat) (ch : Choice)
  | finish (i : Nat)
  -- shutdown
  | close

def LocalState.spawn (s : LocalState) (t : LocalThread) : LocalState :=
  { s with threads := s.threads ++ [t] }

section Given

variable [GoStd]

def localStep (o : Orchestrator) : LocalAction → LocalState → Option LocalState
  | .create req hash id now, s =>
    if id ∈ s.issued then none
    else
      match checkCreate req with
      | .error answer => some (s.spawn (.handler (.answered answer)))
      | .ok req =>
        let s := { s with issued := id :: s.issued }
        some (s.spawn (.handler
          (.createReserve req.idempotencyKey hash (newSubmission req id now))))
  | .resume id, s => some (s.spawn (.handler (.resumeClaim id)))
  | .adjudicate id req, s => some (s.spawn (.handler (.adjudicateGet id req)))
  | .handler i ch, s =>
    match s.threads[i]? with
    | some (.handler h) =>
      (h.step localDispatcher ch s.pool s.world).map fun (pool, world, h) =>
        { s with pool := pool, world := world, threads := s.threads.set i (.handler h) }
    | _ => none
  | .take k env, s =>
    (s.pool.take k).map fun (id, pool) =>
      { s with pool := pool }.spawn (.worker { subID := id } env)
  | .run i ch, s =>
    match s.threads[i]? with
    | some (.worker r env) =>
      (r.step o env ch s.world).map fun (world, r) =>
        { s with world := world, threads := s.threads.set i (.worker r env) }
    | _ => none
  | .finish i, s =>
    match s.threads[i]? with
    | some (.worker r _) =>
      if runFinished r then
        (s.pool.finish r.subID).map fun pool =>
          { s with pool := pool, threads := s.threads.set i .ended }
      else none
    | _ => none
  | .close, s => some { s with pool := s.pool.close }

/-- A fresh pool on a store whose submissions have all come to rest. -/
def localSys (o : Orchestrator) : Sys LocalState LocalAction where
  init s := (∃ room cfg, newLocalPool room cfg = some s.pool) ∧ s.threads = [] ∧
    ∀ id st, s.world.status id = some st → isTerminal st = true ∧ id ∈ s.issued
  step := localStep o

end Given

/-- No store call of the step fails. -/
def LocalAction.StoreOk : LocalAction → Prop
  | .handler _ ch => ch.storeErr = none
  | .run _ ch => ch.storeErr = none
  | _ => True

instance : DecidablePred LocalAction.StoreOk
  | .handler _ ch => inferInstanceAs (Decidable (ch.storeErr = none))
  | .run _ ch => inferInstanceAs (Decidable (ch.storeErr = none))
  | .create .. | .resume _ | .adjudicate .. | .take .. | .finish _ | .close => .isTrue trivial

/-! ## Who holds a submission -/

/-- The submission a thread answers for. -/
def LocalThread.holder : LocalThread → Option String
  | .handler h => h.stage.holder
  | .worker r _ => if r.pc.stage = .done then none else some r.subID
  | .ended => none

/-- The submission a worker runs whose final status is not stored yet. -/
def LocalThread.runs : LocalThread → Option String
  | .worker r env => (LocalThread.worker r env).holder
  | _ => none

/-- Jobs of a submission, and runs that have not stored its final
status. -/
def LocalState.working (s : LocalState) (id : String) : Nat :=
  s.pool.jobs.count id + weigh (fun t => (decide (t.runs = some id)).toNat) s.threads

/-- The handler has answered, or `Process` has returned. -/
def LocalThread.atRest : LocalThread → Bool
  | .handler (.answered _) => true
  | .handler _ => false
  | .worker r _ => runFinished r
  | .ended => true

/-- No handler in progress, no queued job, no running `Process`. -/
def LocalState.Quiescent (s : LocalState) : Prop :=
  s.pool.jobs = [] ∧ ∀ t ∈ s.threads, t.atRest = true

instance (s : LocalState) : Decidable s.Quiescent :=
  inferInstanceAs (Decidable (_ ∧ _))

/-- What a thread is to the submissions. -/
def LocalThread.party : LocalThread → Party
  | .handler h => .handler h.stage
  | .worker r _ => .run r.subID r.pc.stage
  | .ended => .bystander

end Scintx.System
