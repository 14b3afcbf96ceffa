/-
Scintx.Workers.Failures — which jobs a queue worker removes when store
calls fail.

`runClaimed` ends in `CompleteJob` WHATEVER happened before: an error of
its own `GetSubmission`, of the write of an exceeded submission and of
`Process` are all dropped or logged. A job row is the only thing that
brings a submission back after a failure, so the question is what status
is stored when its row goes.

The system is one worker, from the head of `claimLoop`, in a gateway that
may do anything: between two calls of the worker the store and the pool
may change to any other (`WorkerAction.others`). `Steady` is the condition
on a step. `removed_job_is_final` says that under it a row goes only with
a submission that is missing or at rest; `failed_read_drops_job` is the
run of the code as it is.
-/
import Scintx.Orchestrator.Failures
import Scintx.Workers.RunClaimed

namespace Scintx.Workers

open Scintx.Lib Scintx.Api Scintx.Store Scintx.Orchestrator

structure WorkerState where
  pool : QueuePool
  world : World
  pc : WorkerPc

inductive WorkerAction where
  /-- The worker's next call; `env` is what the outside answers if it
  enters `Process`. -/
  | call (env : RunEnv) (ch : Choice)
  /-- Handlers, other workers, the heartbeat and other processes. -/
  | others (pool : QueuePool) (w : World)

/-- One worker of a pool. -/
def workerSys [GoStd] (o : Orchestrator) (owner : String) : Sys WorkerState WorkerAction where
  init s := s.pc = .polling
  step
    | .call env ch, s =>
      (s.pc.step o s.pool owner env ch s.world).map fun (w, pc) =>
        { s with world := w, pc := pc }
    | .others pool w, s => some { s with pool := pool, world := w }

/-! ## The condition -/

/-- The submission whose job the worker will remove even if the call it is
about to make fails. -/
def WorkerPc.drops : WorkerPc → Option String
  | .claimed id _ | .exceeded id _ => some id
  | .processing r _ => if r.relies then some r.subID else none
  | _ => none

/-- The submission whose job is still to be completed, and nothing else. -/
def WStage.finishes : WStage → Option String
  | .finishing id => some id
  | _ => none

/-- The worker's call does not fail where that drops the job of a
submission that is not at rest, and nobody takes a submission out of rest
while the worker has its job still to complete. -/
def Steady (s : WorkerState) : WorkerAction → Prop
  | .call _ ch => ch.storeErr ≠ none → ∀ id ∈ s.pc.drops, Final (s.world.status id)
  | .others _ w => ∀ id ∈ s.pc.stage.finishes, Final (s.world.status id) → Final (w.status id)

instance (s : WorkerState) : DecidablePred (Steady s)
  | .call _ ch =>
    inferInstanceAs (Decidable (ch.storeErr ≠ none → ∀ id ∈ s.pc.drops, Final (s.world.status id)))
  | .others _ w =>
    inferInstanceAs (Decidable
      (∀ id ∈ s.pc.stage.finishes, Final (s.world.status id) → Final (w.status id)))

/-! ## What the worker knows -/

/-- A worker that has only `CompleteJob` left to call has a submission
that is missing or at rest. -/
def WorkerPc.Rests (w : World) : WorkerPc → Prop
  | .processing r _ => ReturnsFinal (w, r)
  | .completing id => Final (w.status id)
  | _ => True

theorem final_put {w : World} {sub : Submission} (h : isTerminal sub.status = true) :
    Final (World.status { w with store := w.store.putSubmission sub } sub.id) := by
  rw [World.status_put_self rfl]
  exact final_some h

theorem WorkerPc.Rests.of_finishing {w w' : World} {pc : WorkerPc} (h : pc.Rests w)
    (hkeeps : ∀ id ∈ pc.stage.finishes, Final (w.status id) → Final (w'.status id)) :
    pc.Rests w' := by
  cases pc with
  | processing r env =>
    intro err hpc
    dsimp only at hpc
    refine hkeeps r.subID ?_ (h err hpc)
    rw [WorkerPc.stage, hpc]
    rfl
  | completing id => exact hkeeps id rfl h
  | _ => trivial

section Given

variable [GoStd] {o : Orchestrator} {p : QueuePool} {owner : String} {env : RunEnv} {ch : Choice}
  {w w' : World} {pc pc' : WorkerPc}

/-- **The step lemma.** It covers every exit of `runClaimed`. -/
theorem WorkerPc.Rests.step (hformed : pc.Formed) (h : pc.Rests w)
    (hsteady : ch.storeErr ≠ none → ∀ id ∈ pc.drops, Final (w.status id))
    (hstep : pc.step o p owner env ch w = some (w', pc')) : pc'.Formed ∧ pc'.Rests w' := by
  cases WorkerPc.step_move hstep with
  | readFailed hfail | writeFailed hfail => exact ⟨trivial, hsteady hfail _ rfl⟩
  | missing hget =>
    refine ⟨trivial, ?_⟩
    rw [WorkerPc.Rests, getSubmission_none hget]
    exact final_none
  | settled hget hfinal =>
    refine ⟨trivial, ?_⟩
    rw [WorkerPc.Rests, (getSubmission_some hget).2]
    exact final_some (by rcases hfinal with hs | hs <;> rw [hs] <;> rfl)
  | exceed hget => exact ⟨(getSubmission_some hget).1, trivial⟩
  | enter => exact ⟨Pc.owns_of_none rfl, fun err hpc => by cases hpc⟩
  | fail =>
    rename_i id sub
    obtain rfl : sub.id = id := hformed
    exact ⟨trivial, final_put rfl⟩
  | returned hfin =>
    obtain ⟨err, hpc⟩ := returned_of_finished hfin
    exact ⟨trivial, h err hpc⟩
  | run hcall =>
    rename_i r r' env'
    refine ⟨(Run.step_own hformed hcall).2.1,
      ReturnsFinal.step hformed h (fun hfail hrelies => ?_) hcall⟩
    exact hsteady hfail r.subID (by simp [WorkerPc.drops, hrelies])
  | _ => exact ⟨trivial, trivial⟩

/-- Only `CompleteJob` removes a row. -/
theorem WorkerPc.step_rows (hformed : pc.Formed)
    (hstep : pc.step o p owner env ch w = some (w', pc')) (id : String) :
    hasJob w'.store.jobs id = hasJob w.store.jobs id ∨ pc = .completing id := by
  cases WorkerPc.step_move hstep with
  | claim hclaim | unclaimed hclaim =>
    have hrows := hasJob_claimJob w.store.jobs ch.order owner p.lease ch.now id
    rw [hclaim] at hrows
    exact .inl hrows
  | run hcall =>
    rw [(Run.step_own hformed hcall).2.2.admission.jobs]
    exact .inl rfl
  | complete =>
    rename_i k
    rcases hasJob_completeJob w.store.jobs k owner id with heq | ⟨rfl, -⟩
    · exact .inl heq
    · exact .inr rfl
  | _ => exact .inl rfl

/-! ## Runs -/

theorem worker_rests {s : WorkerState} (h : (workerSys o owner).Reach Steady s) :
    s.pc.Formed ∧ s.pc.Rests s.world := by
  refine h.invariant (I := fun s => s.pc.Formed ∧ s.pc.Rests s.world) ?_ ?_
  · rintro ⟨pool, w, pc⟩ (rfl : pc = .polling)
    exact ⟨trivial, trivial⟩
  · rintro s a s' ⟨hformed, hrests⟩ hok hstep
    cases a with
    | call env ch =>
      simp only [workerSys, Option.map_eq_some_iff] at hstep
      obtain ⟨⟨w, pc⟩, hpc, rfl⟩ := hstep
      exact hrests.step hformed hok hpc
    | others pool w =>
      cases hstep
      exact ⟨hformed, hrests.of_finishing hok⟩

/-- **A job goes with a submission at rest.** In a run whose steps are all
steady, a call of the worker that removes the row of a submission finds
the submission missing, completed, failed or deferred. -/
theorem removed_job_is_final {s s' : WorkerState} (h : (workerSys o owner).Reach Steady s)
    (hstep : (workerSys o owner).step (.call env ch) s = some s') {id : String}
    (hrow : hasJob s.world.store.jobs id = true) (hgone : hasJob s'.world.store.jobs id = false) :
    s.world.status id = none ∨ s.world.status id = some .completed ∨
      s.world.status id = some .failed ∨ s.world.status id = some .deferred := by
  obtain ⟨hformed, hrests⟩ := worker_rests h
  simp only [workerSys, Option.map_eq_some_iff] at hstep
  obtain ⟨⟨w, pc⟩, hpc, rfl⟩ := hstep
  rcases WorkerPc.step_rows hformed hpc id with hsame | hcompleting
  · cases hgone.symm.trans (hsame.trans hrow)
  · rw [hcompleting] at hrests
    cases hst : s.world.status id with
    | none => exact .inl rfl
    | some st =>
      have hterm := hrests st hst
      cases st with
      | accepted | running => cases hterm
      | completed => exact .inr (.inl rfl)
      | failed => exact .inr (.inr (.inl rfl))
      | deferred => exact .inr (.inr (.inr rfl))

end Given

/-! ## A read that fails after the claim -/

/-- A submission waits in the queue. -/
def queuedWorld : World :=
  match enqueueJob scanWorld.store.jobs 0 "sub_a" with
  | .ok jobs => scanWorld.setJobs jobs
  | .error _ => scanWorld

def idleWorker : WorkerState :=
  { pool := newQueuePool {} "h", world := queuedWorld, pc := .polling }

/-- The worker polls and claims the job. -/
def claimCalls : List WorkerAction :=
  [.call scanEnv {}, .call scanEnv { order := ["sub_a"] }]

theorem idleWorker_reach [GoStd] {o : Orchestrator} {ok : WorkerState → WorkerAction → Prop} :
    (workerSys o "h-w0").Reach ok idleWorker :=
  Sys.Reach.init rfl

/-- The `GetSubmission` of `runClaimed` fails: the job of an accepted
submission is removed. -/
theorem failed_read_drops_job :
    ∃ s s' : WorkerState, (@workerSys GoStd.plain (@Orchestrator.plain GoStd.plain) "h-w0").Reach
        (fun _ _ => True) s ∧
      (@workerSys GoStd.plain (@Orchestrator.plain GoStd.plain) "h-w0").step (.call scanEnv {}) s =
        some s' ∧
      hasJob s.world.store.jobs "sub_a" = true ∧ hasJob s'.world.store.jobs "sub_a" = false ∧
      s.world.status "sub_a" = some .accepted := by
  let _ := GoStd.plain
  have hrun : ((workerSys Orchestrator.plain "h-w0").run (fun _ _ => True)
      (claimCalls ++ [.call scanEnv { storeErr := some "store down" }]) idleWorker).bind (fun s =>
        ((workerSys Orchestrator.plain "h-w0").step (.call scanEnv {}) s).map fun s' =>
          (hasJob s.world.store.jobs "sub_a", hasJob s'.world.store.jobs "sub_a",
            s.world.status "sub_a")) = some (true, false, some .accepted) := by
    decide +kernel
  obtain ⟨s, hs, hnext⟩ := Option.bind_eq_some_iff.mp hrun
  obtain ⟨s', hs', heq⟩ := Option.map_eq_some_iff.mp hnext
  simp only [Prod.mk.injEq] at heq
  exact ⟨s, s', idleWorker_reach.of_run hs, hs', heq⟩

/-- The event of the finished submission cannot be stored; the submission
is completed, and its job goes. -/
theorem removed_job_is_final_completed :
    ∃ s s' : WorkerState,
      (@workerSys GoStd.plain (@Orchestrator.plain GoStd.plain) "h-w0").Reach Steady s ∧
      hasJob s'.world.store.jobs "sub_a" = false ∧
      (s.world.status "sub_a" = none ∨ s.world.status "sub_a" = some .completed ∨
        s.world.status "sub_a" = some .failed ∨ s.world.status "sub_a" = some .deferred) := by
  let _ := GoStd.plain
  have hrun : ((workerSys Orchestrator.plain "h-w0").run Steady
      (claimCalls ++ List.replicate 22 (.call scanEnv { order := ["res_a"] }) ++
        [.call scanEnv { storeErr := some "store down" }, .call scanEnv {}]) idleWorker).bind
      (fun s => ((workerSys Orchestrator.plain "h-w0").step (.call scanEnv {}) s).map fun s' =>
        (hasJob s.world.store.jobs "sub_a", hasJob s'.world.store.jobs "sub_a")) =
      some (true, false) := by
    decide +kernel
  obtain ⟨s, hs, hnext⟩ := Option.bind_eq_some_iff.mp hrun
  obtain ⟨s', hs', heq⟩ := Option.map_eq_some_iff.mp hnext
  simp only [Prod.mk.injEq] at heq
  have hreach := idleWorker_reach.of_run hs
  exact ⟨s, s', hreach, heq.2, removed_job_is_final hreach hs' heq.1 heq.2⟩

end Scintx.Workers
