/-
Scintx.System.QueueResume — no running submission is forgotten, if
resumes wait for the worker before them.

A worker that defers a submission stores that status FIRST and completes
its job after it. A resume that comes in between finds the submission
deferred and claims it, but its `EnqueueJob` finds the old row and does
nothing; then the worker removes that row. The submission is running, the
client was told so, and nobody will ever run it (`resumed_job_lost`).

The invariant is `QueueState.Carried`: a running submission has a run
that will store its final status, or a resume handler, or a row that no
worker is about to remove. The last conjunct is the point. Every step
keeps it except an enqueue of a resume handler while a worker is
finishing, which `QueueAction.Patient` excludes. Lease expiries, double
claims and all their overwrites are allowed.
-/
import Scintx.System.QueueTenancy

namespace Scintx.System

open Scintx.Lib Scintx.Api Scintx.Store Scintx.Orchestrator Scintx.Workers Scintx.Server

/-! ## The condition -/

/-- The submission a resume handler is about to enqueue. -/
def QueueAction.enqueues (s : QueueState) : QueueAction → Option String
  | .handler i _ =>
    match s.threads[i]? with
    | some (.handler _ (.resumeCommit _ id)) => some id
    | _ => none
  | _ => none

/-- A resume handler enqueues a submission only when no worker has still
to complete a job of it. -/
def QueueAction.Patient (s : QueueState) (a : QueueAction) : Prop :=
  ∀ id ∈ a.enqueues s, ∀ t ∈ s.threads, t.work ≠ .finishing id

instance (s : QueueState) (a : QueueAction) : Decidable (a.Patient s) :=
  inferInstanceAs (Decidable (∀ id ∈ a.enqueues s, ∀ t ∈ s.threads, t.work ≠ .finishing id))

def QueueAction.isCrash : QueueAction → Bool
  | .crash _ => true
  | _ => false

/-- The steps without store failures and crashes. -/
def QueueAction.Faultless (a : QueueAction) : Prop :=
  a.StoreOk ∧ a.isCrash = false

instance : DecidablePred QueueAction.Faultless :=
  fun a => inferInstanceAs (Decidable (a.StoreOk ∧ a.isCrash = false))

section Given

variable [GoStd]

/-- Queue mode from a store in which every running submission has a job. -/
def resumeSys (o : Orchestrator) : Sys QueueState QueueAction where
  init s := (queueSys o).init s ∧
    ∀ id, s.store.status id = some .running → hasJob s.store.jobs id = true
  step := queueStep o

end Given

/-! ## The invariant -/

/-- Somebody will go on with the submission. -/
def QueueState.Carried (s : QueueState) (id : String) : Prop :=
  (∃ t ∈ s.threads, ∃ st, t.work = .processing id st) ∨
  (∃ t ∈ s.threads, t.serves = .resuming id ∨ t.serves = .reverting id) ∨
  (hasJob s.store.jobs id = true ∧ ∀ t ∈ s.threads, t.work ≠ .finishing id)

structure ResumeInv (s : QueueState) : Prop where
  formed : ∀ t ∈ s.threads, t.Formed
  sound : ∀ t ∈ s.threads, ∀ id c, t.serves = .adjudicating id c → c = .completed
  carried : ∀ id, s.store.status id = some .running → s.Carried id

/-! ## Steps of one thread -/

section Handlers

variable {p p' : QueuePool} {w w' : World} {st st' : HStage}

/-- Only `ClaimResume` makes a submission running, of all that handlers
do. -/
theorem handlerStep_running (h : HandlerStep queueDispatcher p w st p' w' st')
    (hsound : ∀ id c, st = .adjudicating id c → c = .completed) {id : String}
    (hrun : w'.status id = some .running) :
    w.status id = some .running ∨ st' = .resuming id := by
  have same (hsame : w'.store.submissions = w.store.submissions) :
      w.status id = some .running ∨ st' = .resuming id :=
    .inl (World.status_of_submissions hsame id ▸ hrun)
  have put {sub : Submission} (hput : w'.store.submissions = w.store.submissions.put (.of sub))
      (hsub : id = sub.id → sub.status = .running → st' = .resuming id) :
      w.status id = some .running ∨ st' = .resuming id := by
    rw [World.status_put hput] at hrun
    split at hrun
    · rename_i hid
      exact .inr (hsub hid (Option.some.inj hrun))
    · exact .inl hrun
  cases h with
  | quiet hadm hsame => exact same hsame
  | commit hst hcommit | commitFailed hcommit | resumeFailed hcommit =>
    exact same (queueCommit_submissions hcommit)
  | create hstatus =>
    refine put (w.store.bindSubmission_submissions ..) fun _ hs => ?_
    cases hstatus.symm.trans hs
  | abandon =>
    rw [World.status, MemoryStore.status_abandonSubmission] at hrun
    split at hrun
    · cases hrun
    · exact .inl hrun
  | claim hclaim =>
    obtain ⟨-, row, rfl, -, rfl⟩ := MemoryStore.claimResume_ok hclaim
    exact put rfl fun hid _ => by rw [hid]
  | unclaim =>
    rw [World.status, MemoryStore.status_releaseResume] at hrun
    split at hrun
    · cases hrun
    · exact .inl hrun
  | resolve =>
    refine put rfl fun _ hs => ?_
    cases (hsound _ _ rfl).symm.trans hs
  | _ => exact same rfl

/-- A resume handler goes on until the submission has a row, or is not
running. -/
theorem handlerStep_resume (h : HandlerStep queueDispatcher p w st p' w' st') {id : String}
    (hst : st = .resuming id ∨ st = .reverting id) :
    (st' = .resuming id ∨ st' = .reverting id) ∨
      (st = .resuming id ∧ st' = .idle ∧ hasJob w'.store.jobs id = true) ∨
      w'.status id ≠ some .running := by
  cases h with
  | quiet hadm hsame => exact .inl hst
  | reserve hres => exact .inl hst
  | release => exact .inl hst
  | refuseResume hres | resumeFailed hcommit =>
    rcases hst with hst | hst <;> cases hst
    exact .inl (.inr rfl)
  | commit hst' hcommit =>
    rcases hst with rfl | rfl
    · rcases hst' with hst' | hst' <;> cases hst'
      refine .inr (.inl ⟨rfl, rfl, ?_⟩)
      rw [hasJob_enqueueJob (queueCommit_ok hcommit)]
      simp
    · rcases hst' with hst' | hst' <;> cases hst'
  | unclaim =>
    rcases hst with hst | hst <;> cases hst
    refine .inr (.inr ?_)
    rw [World.status, MemoryStore.status_releaseResume]
    split
    · simp
    · rename_i hne
      exact fun hrun => hne ⟨rfl, hrun⟩
  | _ => rcases hst with hst | hst <;> cases hst

end Handlers

/-! ## Steps of the system -/

section System

variable {s s' : QueueState} {i : Nat}

/-- A handler's step. The guard is used where the handler enqueues. -/
theorem handlerMove_carried (h : ResumeInv s) {g : Nat} {hd hd' : Handler} {p p' : QueuePool}
    {w w' : World} (hpatient : ∀ id, hd.stage = .resuming id → hd'.stage = .idle →
      ∀ t ∈ s.threads, t.work ≠ .finishing id)
    (hi : s.threads[i]? = some (.handler g hd)) (hw : w.store = s.store)
    (hw' : w'.store = s'.store) (hthreads : s'.threads = s.threads.set i (.handler g hd'))
    (hstep : HandlerStep queueDispatcher p w hd.stage p' w' hd'.stage) (id : String)
    (hrun : s'.store.status id = some .running) : s'.Carried id := by
  have hself : QueueThread.handler g hd' ∈ s'.threads := by
    rw [hthreads]
    exact List.mem_of_getElem? (List.getElem?_set_self (List.getElem?_eq_some_iff.mp hi).1)
  -- workers are the same ones before and after
  have hworkers (t : QueueThread) (ht : t ∈ s'.threads) : t.work = .out ∨ t ∈ s.threads := by
    rw [hthreads] at ht
    rcases mem_set_cases ht with rfl | hold
    · exact .inl rfl
    · exact .inr hold
  rw [← hw'] at hrun
  rcases handlerStep_running hstep (h.sound _ (List.mem_of_getElem? hi)) hrun with hbefore | hnew
  · rw [World.status, hw] at hbefore
    rcases h.carried id hbefore with ⟨t, ht, st, hwork⟩ | ⟨t, ht, hserves⟩ | ⟨hrow, hfin⟩
    · rcases mem_set_of_mem hi ht (.handler g hd') with rfl | hmem
      · cases hwork
      · exact .inl ⟨t, hthreads ▸ hmem, st, hwork⟩
    · rcases mem_set_of_mem hi ht (.handler g hd') with rfl | hmem
      · rcases handlerStep_resume hstep hserves with hstill | ⟨hst, hidle, hrow⟩ | hnot
        · exact .inr (.inl ⟨_, hself, hstill⟩)
        · refine .inr (.inr ⟨hw' ▸ hrow, fun t ht => ?_⟩)
          rcases hworkers t ht with hout | hold
          · simp [hout]
          · exact hpatient id hst hidle t hold
        · exact absurd hrun hnot
      · exact .inr (.inl ⟨t, hthreads ▸ hmem, hserves⟩)
    · refine .inr (.inr ⟨?_, fun t ht => ?_⟩)
      · rw [← hw']
        rcases handlerStep_rows hstep with hsame | ⟨y, -, -, hadd⟩ | ⟨y, -, hgone, hdel⟩
        · rw [hsame, hw, hrow]
        · rw [hadd, hw, hrow, Bool.or_true]
        · have hne : id ≠ y := by
            rintro rfl
            cases hgone.symm.trans hrun
          simp [hdel, hw, hrow, hne]
      · rcases hworkers t ht with hout | hold
        · simp [hout]
        · exact hfin t hold
  · exact .inr (.inl ⟨_, hself, .inl hnew⟩)

/-- A worker's step. It may remove the row of the submission it is
finishing, which nobody relies on. -/
theorem workerMove_carried (h : ResumeInv s) {g n : Nat} {pc pc' : WorkerPc} {w w' : World}
    (hi : s.threads[i]? = some (.worker g n pc)) (hw : w.store = s.store)
    (hw' : w'.store = s'.store) (hthreads : s'.threads = s.threads.set i (.worker g n pc'))
    (hstep : WorkerStep w pc.stage w' pc'.stage) (id : String)
    (hrun : s'.store.status id = some .running) : s'.Carried id := by
  have hself : QueueThread.worker g n pc' ∈ s'.threads := by
    rw [hthreads]
    exact List.mem_of_getElem? (List.getElem?_set_self (List.getElem?_eq_some_iff.mp hi).1)
  -- a step that leaves the status, the row and the stages of others as they are
  have kept (hstatus : w'.status id = w.status id)
      (hproc : ∀ st, pc.stage = .processing id st → ∃ st', pc'.stage = .processing id st')
      (hrow : pc.stage ≠ .finishing id → hasJob w'.store.jobs id = hasJob w.store.jobs id)
      (hfin : pc'.stage = .finishing id → pc.stage = .finishing id) : s'.Carried id := by
    rw [← hw'] at hrun
    rw [show w'.store.status id = w.store.status id from hstatus, hw] at hrun
    rcases h.carried id hrun with ⟨t, ht, st, hwork⟩ | ⟨t, ht, hserves⟩ | ⟨hjob, hfree⟩
    · rcases mem_set_of_mem hi ht (.worker g n pc') with rfl | hmem
      · obtain ⟨st', hst'⟩ := hproc st hwork
        exact .inl ⟨_, hself, st', hst'⟩
      · exact .inl ⟨t, hthreads ▸ hmem, st, hwork⟩
    · rcases mem_set_of_mem hi ht (.worker g n pc') with rfl | hmem
      · rcases hserves with hs | hs <;> cases hs
      · exact .inr (.inl ⟨t, hthreads ▸ hmem, hserves⟩)
    · have hmine := hfree _ (List.mem_of_getElem? hi)
      refine .inr (.inr ⟨?_, fun t ht => ?_⟩)
      · rw [← hw', hrow hmine, hw, hjob]
      · rw [hthreads] at ht
        rcases mem_set_cases ht with rfl | hold
        · exact fun hc => hmine (hfin hc)
        · exact hfree t hold
  -- a step after which the submission is not running
  have ended {v : Option SubmissionStatus} (hv : w'.status id = v) (hne : v ≠ some .running) :
      s'.Carried id :=
    absurd (hv.symm.trans (hw' ▸ hrun : w'.store.status id = some .running)) hne
  generalize hst : pc.stage = st at hstep kept
  generalize hst' : pc'.stage = st' at hstep kept
  cases hstep with
  | quiet hadm hsame =>
    exact kept (World.status_of_submissions hsame id) (fun st hp => ⟨st, hp⟩)
      (fun _ => by rw [hadm.jobs]) (fun hf => hf)
  | poll hrows | claim hrow hrows =>
    exact kept rfl (fun _ hp => by cases hp) (fun _ => hrows id) (fun hf => by cases hf)
  | skip hs =>
    rename_i k
    by_cases hk : id = k
    · subst hk
      rcases hs with hs | hs | hs <;> exact ended hs (by simp)
    · exact kept rfl (fun _ hp => by cases hp) (fun _ => rfl)
        (fun hf => absurd (WStage.finishing.inj hf).symm hk)
  | exceed hs hopen | enter hs hopen =>
    exact kept rfl (fun _ hp => by cases hp) (fun _ => rfl) (fun hf => by cases hf)
  | fail hstatus =>
    rename_i sub
    by_cases hk : id = sub.id
    · subst hk
      exact ended (World.status_put_self rfl) (by simp [hstatus])
    · exact kept (World.status_of_record (World.record_put rfl id hk)) (fun _ hp => by cases hp)
        (fun _ => rfl) (fun hf => absurd (WStage.finishing.inj hf).symm hk)
  | run hne hstage =>
    rename_i k st st'
    by_cases hk : id = k
    · subst hk
      by_cases hdone : st' = .done
      · -- the run has ended, and not with a running submission
        subst hdone
        obtain ⟨-, wrote, hstep, -⟩ := hstage
        rw [← hw'] at hrun
        exact absurd hrun (hstep.not_running hne)
      · refine .inl ⟨_, hself, st', ?_⟩
        rw [QueueThread.work, hst', WStage.inside, if_neg hdone]
    · refine kept (World.status_of_record (hstage.others hk)) (fun st hp => ?_)
        (fun _ => by rw [hstage.admission.jobs]) (fun hf => ?_)
      · exact absurd (WStage.processing.inj hp).1.symm hk
      · unfold WStage.inside at hf
        split at hf <;> cases hf
        exact absurd rfl hk
  | complete =>
    rename_i k owner
    refine kept rfl (fun _ hp => by cases hp) (fun hfin => ?_) (fun hf => by cases hf)
    rcases hasJob_completeJob w.store.jobs k owner id with heq | ⟨hk, -⟩
    · exact heq
    · exact absurd (by rw [hk]) hfin

/-- An adjudication starts from a completed submission. -/
theorem HandlerStep.sound {σ : Type} {d : Dispatcher σ} {p p' : σ} {w w' : World} {st st' : HStage}
    (h : HandlerStep d p w st p' w' st')
    (hsound : ∀ id c, st = .adjudicating id c → c = .completed) :
    ∀ id c, st' = .adjudicating id c → c = .completed := by
  intro id c hc
  cases h with
  | quiet => exact hsound id c hc
  | reserve => exact hsound id c hc
  | release => exact hsound id c hc
  | adopt =>
    cases hc
    rfl
  | _ => cases hc

theorem handler_of_resuming {h h' : Handler} {σ : Type} {d : Dispatcher σ} {p p' : σ}
    {w w' : World} {ch : HandlerChoice} {id : String} (hs : h.stage = .resuming id)
    (hs' : h'.stage = .idle) (hstep : h.step d ch p w = some (p', w', h')) :
    ∃ tok, h = .resumeCommit tok id := by
  cases Handler.step_move hstep with
  | resumeFailed | resumed =>
    cases hs
    exact ⟨_, rfl⟩
  | resumeNotReserved | resumeReserved => cases hs'
  | _ => cases hs

/-- **Every step without faults keeps the invariant**, if no resume
handler enqueues too early. -/
theorem queueMove_resume (h : ResumeInv s) {a : QueueAction} (hcrash : a.isCrash = false)
    (hpatient : a.Patient s) (hm : QueueMove s s' a) : ResumeInv s' := by
  have hformed := hm.formed h.formed
  cases hm with
  | spawn hstore hthreads hissued hnew =>
    rename_i t
    refine ⟨hformed, fun u hu id c hc => ?_, fun id hrun => ?_⟩
    · rw [hthreads] at hu
      rcases List.mem_append.mp hu with hold | hsing
      · exact h.sound u hold id c hc
      · rw [List.mem_singleton.mp hsing] at hc
        rcases hnew.serves with hs | ⟨y, hs⟩ | ⟨y, hs, -⟩ <;> cases hs.symm.trans hc
    · rw [hstore] at hrun
      unfold QueueState.Carried
      rw [hthreads, hstore]
      refine (h.carried id hrun).imp ?_ (Or.imp ?_ ?_)
      · exact fun ⟨u, hu, hwork⟩ => ⟨u, List.mem_append_left _ hu, hwork⟩
      · exact fun ⟨u, hu, hserves⟩ => ⟨u, List.mem_append_left _ hu, hserves⟩
      · refine fun ⟨hrow, hfin⟩ => ⟨hrow, fun u hu => ?_⟩
        rcases List.mem_append.mp hu with hold | hsing
        · exact hfin u hold
        · rw [List.mem_singleton.mp hsing, hnew.work]
          simp
  | handler hi hw hw' hthreads hissued hfresh hcall hstep =>
    rename_i i g ch hd hd' p p' w w'
    refine ⟨hformed, fun u hu => ?_, handlerMove_carried h (fun id hst hidle => ?_) hi hw hw'
      hthreads hstep⟩
    · rw [hthreads] at hu
      rcases mem_set_cases hu with rfl | hold
      · exact HandlerStep.sound hstep (h.sound _ (List.mem_of_getElem? hi))
      · exact h.sound u hold
    · obtain ⟨tok, rfl⟩ := handler_of_resuming hst hidle hcall
      exact hpatient id (by simp [QueueAction.enqueues, hi])
  | worker hi hw hw' hthreads hissued hpc hstep =>
    refine ⟨hformed, fun u hu => ?_, workerMove_carried h hi hw hw' hthreads hstep⟩
    rw [hthreads] at hu
    rcases mem_set_cases hu with rfl | hold
    · exact fun id c hc => by cases hc
    · exact h.sound u hold
  | rows hsub hrows hthreads hissued =>
    refine ⟨hformed, fun u hu => h.sound u (hthreads ▸ hu), fun id hrun => ?_⟩
    rw [MemoryStore.status_of_submissions hsub] at hrun
    unfold QueueState.Carried
    rw [hthreads, hrows]
    exact h.carried id hrun
  | crash => cases hcrash

end System

/-! ## Runs -/

section Given

variable [GoStd] {o : Orchestrator} {s : QueueState}

theorem resumeInv_init (h : (resumeSys o).init s) : ResumeInv s := by
  obtain ⟨⟨-, hthreads, -⟩, hrows⟩ := h
  have hnone (t : QueueThread) (ht : t ∈ s.threads) : False := by
    rw [hthreads] at ht
    cases ht
  exact ⟨fun t ht => (hnone t ht).elim, fun t ht => (hnone t ht).elim,
    fun id hrun => .inr (.inr ⟨hrows id hrun, fun t ht => (hnone t ht).elim⟩)⟩

theorem resumeInv_reach
    (h : (resumeSys o).Reach (fun s a => a.Faultless ∧ a.Patient s) s) : ResumeInv s :=
  h.invariant (fun _ => resumeInv_init) fun _ _ _ hinv hok hstep =>
    queueMove_resume hinv hok.1.2 hok.2 (queueStep_move hok.1.1 hinv.formed hstep)

omit [GoStd] in
/-- A worker whose stage is `processing` is inside `Process`. -/
theorem processing_inside {t : QueueThread} {id : String} {st : Stage}
    (h : t.work = .processing id st) :
    ∃ g n r env, t = .worker g n (.processing r env) ∧ r.subID = id ∧ runFinished r = false := by
  cases t with
  | worker g n pc =>
    obtain ⟨r, env, rfl, hid, hne⟩ := WorkerPc.of_processing h
    refine ⟨g, n, r, env, rfl, hid, ?_⟩
    by_contra hfin
    exact hne (runFinished_done (by simpa using hfin))
  | handler => cases h
  | ended => cases h

/-- **No running submission is forgotten.** Without crashes and store
failures, and as long as no resume handler enqueues a submission whose
last worker has its `CompleteJob` still to make, every running submission
has a job, or a worker inside `Process`, or a resume handler between
`ClaimResume` and its `EnqueueJob` or `ReleaseResume`. -/
theorem running_submission_carried
    (h : (resumeSys o).Reach (fun s a => a.Faultless ∧ a.Patient s) s) (id : String)
    (hrun : s.store.status id = some .running) :
    hasJob s.store.jobs id = true ∨
    (∃ g n r env, QueueThread.worker g n (.processing r env) ∈ s.threads ∧ r.subID = id ∧
      runFinished r = false) ∨
    (∃ g hd, QueueThread.handler g hd ∈ s.threads ∧
      (hd.stage = .resuming id ∨ hd.stage = .reverting id)) := by
  rcases (resumeInv_reach h).carried id hrun with ⟨t, ht, st, hwork⟩ | ⟨t, ht, hserves⟩ | ⟨hrow, -⟩
  · obtain ⟨g, n, r, env, rfl, hid, hfin⟩ := processing_inside hwork
    exact .inr (.inl ⟨g, n, r, env, ht, hid, hfin⟩)
  · cases t with
    | handler g hd => exact .inr (.inr ⟨g, hd, ht, hserves⟩)
    | worker | ended => rcases hserves with hs | hs <;> cases hs
  · exact .inl hrow

end Given

/-- A submission whose only provider fails is created and claimed, and
the policy defers it; its worker has not completed the job. -/
def deferredByWorker : List QueueAction :=
  let env := RunEnv.plain "a" (.error "down")
  [.boot {} "h" "",
   .create 0 { artifact := { purl := some "pkg:npm/a@1" }, requestedCapabilities := ["scan"]
               policyRef := some "default" } "h" "sub_a" 0,
   .handler 0 {}, .handler 0 {}, .handler 0 {}, .start 0 0,
   .worker 1 env {}, .worker 1 env { order := ["sub_a"] }] ++
  List.replicate 20 (.worker 1 env { order := ["res_a0"] })

/-- A resume claims the submission, reserves, enqueues and answers. -/
def resumedByClient : List QueueAction :=
  [.resume 0 "sub_a", .handler 2 {}, .handler 2 {}, .handler 2 {}, .handler 2 {}]

/-- The worker completes its job. -/
def completedJob : List QueueAction :=
  List.replicate 3 (.worker 1 (RunEnv.plain "a" (.error "down")) {})

theorem emptyQueueState_resume {ok : QueueState → QueueAction → Prop} :
    (@resumeSys GoStd.plain (@Orchestrator.plain GoStd.plain)).Reach ok emptyQueueState :=
  Sys.Reach.init
    ⟨⟨rfl, rfl, fun id h => by rcases h with h | h <;> cases h⟩, fun id h => by cases h⟩

/-- Three threads that are out of work and idle. -/
theorem all_quiet {threads : List QueueThread}
    (h : threads.map (fun t => (t.work, t.serves)) =
      [(.out, .idle), (.out, .idle), (.out, .idle)]) (t : QueueThread) (ht : t ∈ threads) :
    t.work = .out ∧ t.serves = .idle := by
  have hmem := List.mem_map_of_mem (f := fun t => (t.work, t.serves)) ht
  rw [h] at hmem
  simpa using hmem

/-- The worker completes its job first, then the resume enqueues a new
one. -/
theorem running_submission_carried_resumed :
    ∃ s, (@resumeSys GoStd.plain (@Orchestrator.plain GoStd.plain)).Reach
        (fun s a => a.Faultless ∧ a.Patient s) s ∧
      s.store.status "sub_a" = some .running ∧ hasJob s.store.jobs "sub_a" = true := by
  let _ := GoStd.plain
  have hrun : ((resumeSys Orchestrator.plain).run (fun s a => a.Faultless ∧ a.Patient s)
      (deferredByWorker ++ completedJob ++ resumedByClient) emptyQueueState).map (fun s =>
        (s.store.status "sub_a", s.threads.map fun t => (t.work, t.serves))) =
      some (some .running, [(.out, .idle), (.out, .idle), (.out, .idle)]) := by
    decide +kernel
  obtain ⟨s, hreach, heq⟩ := emptyQueueState_resume.of_run_map hrun
  simp only [Prod.mk.injEq] at heq
  obtain ⟨hrunning, hthreads⟩ := heq
  have hquiet := all_quiet hthreads
  refine ⟨s, hreach, hrunning, ?_⟩
  rcases running_submission_carried hreach "sub_a" hrunning with
    hrow | ⟨g, n, r, env, ht, -, hfin⟩ | ⟨g, hd, ht, hserves⟩
  · exact hrow
  · have hout := (hquiet _ ht).1
    simp only [QueueThread.work, WorkerPc.stage, WStage.inside] at hout
    split at hout <;> cases hout
  · have hidle : hd.stage = .idle := (hquiet _ ht).2
    rw [hidle] at hserves
    rcases hserves with hs | hs <;> cases hs

/-- The status of the answer that a handler of the first generation gave. -/
def answeredStatus : Option QueueThread → Nat
  | some (.handler 0 (.answered answer)) => answer.status
  | _ => 0

/-- The resume comes in between: its enqueue finds the old row, and the
worker removes it. The client got 202, the submission is running, and it
has no job, no worker and no handler. -/
theorem resumed_job_lost :
    ∃ s, (@resumeSys GoStd.plain (@Orchestrator.plain GoStd.plain)).Reach
        (fun _ a => a.Faultless) s ∧
      s.store.status "sub_a" = some .running ∧ hasJob s.store.jobs "sub_a" = false ∧
      (∀ t ∈ s.threads, t.work = .out ∧ t.serves = .idle) ∧
      ∃ answer, s.threads[2]? = some (.handler 0 (.answered answer)) ∧ answer.status = 202 := by
  let _ := GoStd.plain
  have hrun : ((resumeSys Orchestrator.plain).run (fun _ a => a.Faultless)
      (deferredByWorker ++ resumedByClient ++ completedJob) emptyQueueState).map (fun s =>
        (s.store.status "sub_a", hasJob s.store.jobs "sub_a",
          s.threads.map fun t => (t.work, t.serves),
          answeredStatus s.threads[2]?)) =
      some (some .running, false, [(.out, .idle), (.out, .idle), (.out, .idle)], 202) := by
    decide +kernel
  obtain ⟨s, hreach, heq⟩ := emptyQueueState_resume.of_run_map hrun
  simp only [Prod.mk.injEq] at heq
  obtain ⟨hrunning, hrow, hthreads, hanswer⟩ := heq
  refine ⟨s, hreach, hrunning, hrow, all_quiet hthreads, ?_⟩
  unfold answeredStatus at hanswer
  split at hanswer
  · rename_i answer hi
    exact ⟨answer, hi, hanswer⟩
  · cases hanswer

end Scintx.System
