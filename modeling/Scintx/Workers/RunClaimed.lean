/-
Scintx.Workers.RunClaimed — a worker of the queue pool: `claimLoop` and
`runClaimed` (`internal/workers/queue.go`).

One step is one store call. What a worker has done to its submission is
stored BEFORE it completes the job, and its lease may end at any time:
the worker is not stopped then. Its heartbeat at most cancels the
context, which a run notices at its next check; that is a choice of the
step (`Choice.cancelled`), so a lost lease is not noticed here either
unless the schedule says so.

`WStage` and `WorkerStep` are to the worker what `Stage` and `Stage.Step`
are to a run: everything the rest of the gateway can tell.
`WorkerPc.step_stage` is the refinement.
-/
import Scintx.Orchestrator.Lifecycle
import Scintx.Store.JobQueueTheorems
import Scintx.Workers.QueuePool

namespace Scintx.Workers

open Scintx.Lib Scintx.Api Scintx.Store Scintx.Orchestrator

/-- Where a worker is. -/
inductive WorkerPc where
  /-- At the head of `claimLoop`. -/
  | polling
  /-- About to call `ClaimJob`. -/
  | claiming
  /-- `runClaimed`, about to read the submission. -/
  | claimed (id : String) (attempts : Nat)
  /-- Claimed too often, about to store the submission as failed. -/
  | exceeded (id : String) (sub : Submission)
  | processing (r : Run) (env : RunEnv)
  /-- About to call `CompleteJob`. -/
  | completing (id : String)
  /-- `claimLoop` has returned. -/
  | stopped

section Given

variable [GoStd]

/-- One step of a worker with the given lease owner. `env` is what the
outside answers if the step enters `Process`. An answer of `CompleteJob`
is ignored, and so is a failed write of an exceeded submission. -/
def WorkerPc.step (o : Orchestrator) (p : QueuePool) (owner : String) (env : RunEnv) (ch : Choice)
    (w : World) : WorkerPc → Option (World × WorkerPc)
  | .polling =>
    if p.closed ∨ ch.cancelled ≠ none then some (w, .stopped) else some (w, .claiming)
  | .claiming =>
    if ch.storeErr ≠ none then some (w, .polling)
    -- the loop over the rows is along an enumeration of them
    else if (rependExpired w.store.jobs ch.now).Enumerates ch.order then
      match claimJob w.store.jobs ch.order owner p.lease ch.now with
      | (.ok (some (id, attempts)), jobs) => some (w.setJobs jobs, .claimed id attempts)
      | (_, jobs) => some (w.setJobs jobs, .polling)
    else none
  | .claimed id attempts =>
    if ch.storeErr ≠ none then some (w, .completing id)
    else
      match w.store.getSubmission id with
      | none => some (w, .completing id)
      | some sub =>
        if sub.status = .completed ∨ sub.status = .failed then some (w, .completing id)
        else if p.maxAttempts < attempts then some (w, .exceeded id sub)
        else some (w, .processing { subID := id } env)
  | .exceeded id sub =>
    if ch.storeErr ≠ none then some (w, .completing id)
    else
      let sub := ended sub .failed .failed ch.now
      some ({ w with store := w.store.putSubmission sub }, .completing id)
  | .processing r env =>
    if runFinished r then some (w, .completing r.subID)
    else (r.step o env ch w).map fun (w, r) => (w, .processing r env)
  | .completing id =>
    if ch.storeErr ≠ none then some (w, .polling)
    else some (w.setJobs (completeJob w.store.jobs id owner).2, .polling)
  | .stopped => none

section Moves

variable (o : Orchestrator) (p : QueuePool) (owner : String) (env : RunEnv) (ch : Choice)
  (w : World)

/-- The results of `WorkerPc.step`, with what makes each one. -/
inductive WorkerMove : WorkerPc → World → WorkerPc → Prop
  | stop (hstop : p.closed ∨ ch.cancelled ≠ none) : WorkerMove .polling w .stopped
  | poll (hgo : ¬ (p.closed ∨ ch.cancelled ≠ none)) : WorkerMove .polling w .claiming
  | claimFailed (hfail : ch.storeErr ≠ none) : WorkerMove .claiming w .polling
  | claim {id : String} {attempts : Nat} {jobs : JobTable}
      (hclaim : claimJob w.store.jobs ch.order owner p.lease ch.now =
        (.ok (some (id, attempts)), jobs)) :
      WorkerMove .claiming (w.setJobs jobs) (.claimed id attempts)
  | unclaimed {out : Except String (Option (String × Nat))} {jobs : JobTable}
      (hclaim : claimJob w.store.jobs ch.order owner p.lease ch.now = (out, jobs))
      (hnone : ∀ id attempts, out ≠ .ok (some (id, attempts))) :
      WorkerMove .claiming (w.setJobs jobs) .polling
  | readFailed {id : String} {attempts : Nat} (hfail : ch.storeErr ≠ none) :
      WorkerMove (.claimed id attempts) w (.completing id)
  | missing {id : String} {attempts : Nat} (hget : w.store.getSubmission id = none) :
      WorkerMove (.claimed id attempts) w (.completing id)
  | settled {id : String} {attempts : Nat} {sub : Submission}
      (hget : w.store.getSubmission id = some sub)
      (hfinal : sub.status = .completed ∨ sub.status = .failed) :
      WorkerMove (.claimed id attempts) w (.completing id)
  | exceed {id : String} {attempts : Nat} {sub : Submission}
      (hget : w.store.getSubmission id = some sub)
      (hopen : ¬ (sub.status = .completed ∨ sub.status = .failed))
      (hmax : p.maxAttempts < attempts) : WorkerMove (.claimed id attempts) w (.exceeded id sub)
  | enter {id : String} {attempts : Nat} {sub : Submission}
      (hget : w.store.getSubmission id = some sub)
      (hopen : ¬ (sub.status = .completed ∨ sub.status = .failed))
      (hmax : ¬ p.maxAttempts < attempts) :
      WorkerMove (.claimed id attempts) w (.processing { subID := id } env)
  | writeFailed {id : String} {sub : Submission} (hfail : ch.storeErr ≠ none) :
      WorkerMove (.exceeded id sub) w (.completing id)
  | fail {id : String} {sub : Submission} :
      WorkerMove (.exceeded id sub)
        { w with store := w.store.putSubmission (ended sub .failed .failed ch.now) }
        (.completing id)
  | returned {r : Run} {env' : RunEnv} (hfin : runFinished r = true) :
      WorkerMove (.processing r env') w (.completing r.subID)
  | run {r r' : Run} {env' : RunEnv} {w' : World} (hcall : r.step o env' ch w = some (w', r')) :
      WorkerMove (.processing r env') w' (.processing r' env')
  | completeFailed {id : String} (hfail : ch.storeErr ≠ none) :
      WorkerMove (.completing id) w .polling
  | complete {id : String} :
      WorkerMove (.completing id) (w.setJobs (completeJob w.store.jobs id owner).2) .polling

end Moves

theorem WorkerPc.step_move {o : Orchestrator} {p : QueuePool} {owner : String} {env : RunEnv}
    {ch : Choice} {w w' : World} {pc pc' : WorkerPc}
    (h : pc.step o p owner env ch w = some (w', pc')) :
    WorkerMove o p owner env ch w pc w' pc' := by
  cases pc with
  | polling =>
    simp only [WorkerPc.step] at h
    split at h <;> cases h
    · exact .stop ‹_›
    · exact .poll ‹_›
  | claiming =>
    simp only [WorkerPc.step] at h
    split at h
    · cases h
      exact .claimFailed ‹_›
    · split at h
      · split at h <;> cases h
        · exact .claim ‹_›
        · rename_i hnone hclaim
          exact .unclaimed hclaim hnone
      · cases h
  | claimed id attempts =>
    simp only [WorkerPc.step] at h
    split at h
    · cases h
      exact .readFailed ‹_›
    · split at h
      · cases h
        exact .missing ‹_›
      · rename_i hget
        split at h
        · cases h
          exact .settled hget ‹_›
        · rename_i hopen
          split at h <;> cases h
          · exact .exceed hget hopen ‹_›
          · exact .enter hget hopen ‹_›
  | exceeded id sub =>
    simp only [WorkerPc.step] at h
    split at h <;> cases h
    · exact .writeFailed ‹_›
    · exact .fail
  | processing r env' =>
    simp only [WorkerPc.step] at h
    split at h
    · cases h
      exact .returned ‹_›
    · obtain ⟨⟨w₁, r'⟩, hcall, heq⟩ := Option.map_eq_some_iff.mp h
      cases heq
      exact .run hcall
  | completing id =>
    simp only [WorkerPc.step] at h
    split at h <;> cases h
    · exact .completeFailed ‹_›
    · exact .complete
  | stopped => cases h

end Given

/-! ## Stages -/

inductive WStage where
  /-- Nothing claimed. -/
  | out
  /-- A job was claimed, its submission not read. -/
  | claimed (id : String)
  /-- About to store the submission as failed. -/
  | exceeded (id : String)
  /-- Inside `Process`, which has not stored a final status. -/
  | processing (id : String) (st : Stage)
  /-- Nothing is left to store, the job is still to be completed. -/
  | finishing (id : String)
  deriving DecidableEq, Repr

/-- The stage of a worker with a run on `id`. -/
def WStage.inside (id : String) (st : Stage) : WStage :=
  if st = .done then .finishing id else .processing id st

def WorkerPc.stage : WorkerPc → WStage
  | .polling | .claiming | .stopped => .out
  | .claimed id _ => .claimed id
  | .exceeded id _ => .exceeded id
  | .processing r _ => .inside r.subID r.pc.stage
  | .completing id => .finishing id

/-- The copies a worker holds are its own. -/
def WorkerPc.Formed : WorkerPc → Prop
  | .exceeded id sub => sub.id = id
  | .processing r _ => r.Owns
  | _ => True

/-- Every step of a worker, between stages. -/
inductive WorkerStep (w : World) : WStage → World → WStage → Prop
  | quiet {w' : World} {st : WStage} (hadm : w.SameAdmission w')
      (hsame : w'.store.submissions = w.store.submissions) : WorkerStep w st w' st
  | poll {jobs : JobTable} (hrows : ∀ y, hasJob jobs y = hasJob w.store.jobs y) :
      WorkerStep w .out (w.setJobs jobs) .out
  | claim {jobs : JobTable} {id : String} (hrow : hasJob w.store.jobs id = true)
      (hrows : ∀ y, hasJob jobs y = hasJob w.store.jobs y) :
      WorkerStep w .out (w.setJobs jobs) (.claimed id)
  | skip {id : String}
      (h : w.status id = none ∨ w.status id = some .completed ∨ w.status id = some .failed) :
      WorkerStep w (.claimed id) w (.finishing id)
  | exceed {id : String} {s : SubmissionStatus} (hs : w.status id = some s)
      (hopen : s ≠ .completed ∧ s ≠ .failed) : WorkerStep w (.claimed id) w (.exceeded id)
  | enter {id : String} {s : SubmissionStatus} (hs : w.status id = some s)
      (hopen : s ≠ .completed ∧ s ≠ .failed) : WorkerStep w (.claimed id) w (.processing id .fresh)
  | fail {sub : Submission} (hstatus : sub.status = .failed) :
      WorkerStep w (.exceeded sub.id) { w with store := w.store.putSubmission sub }
        (.finishing sub.id)
  | run {w' : World} {id : String} {st st' : Stage} (hst : st ≠ .done)
      (h : StagedStep id w st w' st') : WorkerStep w (.processing id st) w' (.inside id st')
  | complete {id owner : String} :
      WorkerStep w (.finishing id) (w.setJobs (completeJob w.store.jobs id owner).2) .out

theorem WorkerPc.of_claimed {pc : WorkerPc} {id : String} (h : pc.stage = .claimed id) :
    ∃ attempts, pc = .claimed id attempts := by
  cases pc with
  | claimed k attempts =>
    cases h
    exact ⟨attempts, rfl⟩
  | processing r env =>
    simp only [WorkerPc.stage, WStage.inside] at h
    split at h <;> cases h
  | _ => cases h

theorem WorkerPc.of_processing {pc : WorkerPc} {id : String} {st : Stage}
    (h : pc.stage = .processing id st) :
    ∃ r env, pc = .processing r env ∧ r.subID = id ∧ r.pc.stage ≠ .done := by
  cases pc with
  | processing r env =>
    simp only [WorkerPc.stage, WStage.inside] at h
    split at h
    · cases h
    · rename_i hne
      exact ⟨r, env, rfl, (WStage.processing.inj h).1, hne⟩
  | _ => cases h

/-- A worker adds no row, and claims one that is there. -/
theorem WorkerStep.rows {w w' : World} {st st' : WStage} (h : WorkerStep w st w' st') :
    (∀ y, hasJob w'.store.jobs y = true → hasJob w.store.jobs y = true) ∧
      ∀ id, st' = .claimed id → st = .claimed id ∨ hasJob w.store.jobs id = true := by
  cases h with
  | quiet hadm hsame => exact ⟨fun y hy => hadm.jobs ▸ hy, fun id hid => .inl hid⟩
  | poll hrows => exact ⟨fun y hy => hrows y ▸ hy, fun id hid => by cases hid⟩
  | claim hrow hrows =>
    refine ⟨fun y hy => hrows y ▸ hy, fun id hid => .inr ?_⟩
    cases hid
    exact hrow
  | run hst hstage =>
    refine ⟨fun y hy => hstage.admission.jobs ▸ hy, fun id hid => ?_⟩
    unfold WStage.inside at hid
    split at hid <;> cases hid
  | complete =>
    rename_i id owner
    refine ⟨fun y hy => ?_, fun id hid => by cases hid⟩
    rcases hasJob_completeJob w.store.jobs id owner y with heq | ⟨-, hnone⟩
    · exact heq ▸ hy
    · cases hnone.symm.trans hy
  | _ => exact ⟨fun y hy => hy, fun id hid => by cases hid⟩

/-- A run that is done changes nothing that others see. -/
theorem StagedStep.of_done {id : String} {w w' : World} {st' : Stage}
    (h : StagedStep id w .done w' st') :
    st' = .done ∧ w.SameAdmission w' ∧ w'.store.submissions = w.store.submissions := by
  obtain ⟨hadm, wrote, hstep, hwrote⟩ := h
  cases wrote with
  | false =>
    refine ⟨?_, hadm, hwrote⟩
    generalize w.status id = v at hstep
    generalize w'.status id = v' at hstep
    cases hstep <;> rfl
  | true => exact absurd rfl hstep.not_done

section Given

variable [GoStd] {o : Orchestrator} {p : QueuePool} {owner : String} {env : RunEnv} {ch : Choice}

/-- **Workers refine their stages.** -/
theorem WorkerPc.step_stage (hstore : ch.storeErr = none) {w w' : World} {pc pc' : WorkerPc}
    (hformed : pc.Formed) (h : pc.step o p owner env ch w = some (w', pc')) :
    pc'.Formed ∧ WorkerStep w pc.stage w' pc'.stage := by
  cases WorkerPc.step_move h with
  | stop | poll => exact ⟨trivial, .quiet (.refl w) rfl⟩
  | claim hclaim =>
    have hrows := hasJob_claimJob w.store.jobs ch.order owner p.lease ch.now
    rw [hclaim] at hrows
    exact ⟨trivial, .claim (hasJob_of_claimed hclaim) hrows⟩
  | unclaimed hclaim =>
    have hrows := hasJob_claimJob w.store.jobs ch.order owner p.lease ch.now
    rw [hclaim] at hrows
    exact ⟨trivial, .poll hrows⟩
  | missing hget => exact ⟨trivial, .skip (.inl (getSubmission_none hget))⟩
  | settled hget hfinal =>
    refine ⟨trivial, .skip (.inr ?_)⟩
    rw [(getSubmission_some hget).2]
    exact hfinal.imp (congrArg some) (congrArg some)
  | exceed hget hopen =>
    obtain ⟨hid, hstatus⟩ := getSubmission_some hget
    exact ⟨hid, .exceed hstatus (not_or.mp hopen)⟩
  | enter hget hopen =>
    exact ⟨Pc.owns_of_none rfl, .enter (getSubmission_some hget).2 (not_or.mp hopen)⟩
  | fail =>
    rename_i id sub
    obtain rfl : sub.id = id := hformed
    have hended : (ended sub .failed .failed ch.now).status = .failed := rfl
    exact ⟨trivial, .fail hended⟩
  | returned hfin =>
    refine ⟨trivial, ?_⟩
    simp only [WorkerPc.stage, WStage.inside, runFinished_done hfin, if_true]
    exact .quiet (.refl w) rfl
  | run hcall =>
    rename_i r r' env'
    obtain ⟨hid, howns, hstage⟩ := Run.step_stage hstore hformed hcall
    refine ⟨howns, ?_⟩
    simp only [WorkerPc.stage, hid]
    by_cases hdone : r.pc.stage = .done
    · rw [hdone] at hstage ⊢
      obtain ⟨hst, hadm, hsame⟩ := StagedStep.of_done hstage
      rw [hst]
      exact .quiet hadm hsame
    · rw [show WStage.inside r.subID r.pc.stage = .processing r.subID r.pc.stage from
        if_neg hdone]
      exact .run hdone hstage
  | complete => exact ⟨trivial, .complete⟩
  | claimFailed hfail | readFailed hfail | writeFailed hfail | completeFailed hfail =>
    exact absurd hstore hfail

end Given

end Scintx.Workers
