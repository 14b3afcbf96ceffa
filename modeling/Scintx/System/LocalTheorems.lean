/-
Scintx.System.LocalTheorems — submissions in local mode are worked on by
one party at a time.

Nothing in the code locks a submission: handlers and runs write the
record they hold, whatever is stored. That this is safe rests on
COUNTING. A submission that is accepted or running has exactly one
holder: the handler that is about to admit or abandon it, the handler
that claimed it for a resume, its job in the pool, or the run that has
not stored its final status. All other submissions have none. The
counting is `Tenancy.Inv`, over the pool's jobs and all threads. What a
step of a handler or of a run does to it is said in `Parties`, over any
dispatcher; here the pool is added, where a handler's submission becomes
a job and a job becomes a run. That every change of a status is a legal
one falls out of the same case analysis, and so does that nothing is
left accepted or running once everyone is at rest: there is no holder.
-/
import Scintx.System.LocalMoves
import Scintx.Workers.LocalPoolTheorems

namespace Scintx.System

open Scintx.Lib Scintx.Api Scintx.Store Scintx.Orchestrator Scintx.Workers Scintx.Server

/-! ## The jobs of the pool -/

/-- A commit queues one job, or fails and queues none. -/
theorem commit_jobs (p : LocalPool) (i : Nat) (id : String) :
    ((p.commit i id).1 = .ok () ∧ (p.commit i id).2.jobs = p.jobs ++ [id]) ∨
      ((∃ e, (p.commit i id).1 = .error e) ∧ (p.commit i id).2.jobs = p.jobs) := by
  rcases commit_cases p i id with ⟨-, q, -, h⟩ | ⟨e, q, hsame, h⟩
  · rw [h]
    exact .inl ⟨rfl, rfl⟩
  · rw [h]
    exact .inr ⟨⟨e, rfl⟩, hsame.jobs⟩

theorem localCommit_ok {p p' : LocalPool} {w w' : World} {now : Time} {tok : Nat} {id : String}
    (h : localDispatcher.commit now tok id p w = (.ok (), p', w')) :
    w' = w ∧ p'.jobs = p.jobs ++ [id] := by
  simp only [localDispatcher, Prod.mk.injEq] at h
  obtain ⟨hok, rfl, rfl⟩ := h
  rcases commit_jobs p tok id with ⟨-, hjobs⟩ | ⟨⟨e, he⟩, -⟩
  · exact ⟨rfl, hjobs⟩
  · rw [hok] at he
    cases he

theorem localCommit_error {p p' : LocalPool} {w w' : World} {now : Time} {tok : Nat} {id : String}
    {e : DispatchError} (h : localDispatcher.commit now tok id p w = (.error e, p', w')) :
    w' = w ∧ p'.jobs = p.jobs := by
  simp only [localDispatcher, Prod.mk.injEq] at h
  obtain ⟨herr, rfl, rfl⟩ := h
  rcases commit_jobs p tok id with ⟨hok, -⟩ | ⟨-, hjobs⟩
  · rw [herr] at hok
    cases hok
  · exact ⟨rfl, hjobs⟩

theorem localReserve_jobs {p p' : LocalPool} {w : World} {ctxErr : Option String}
    {out : Except DispatchError Nat} (h : localDispatcher.reserve ctxErr p w = (out, p')) :
    p'.jobs = p.jobs := by
  have := (reserve_sameWork p ctxErr).jobs
  rwa [show p.reserve ctxErr = (out, p') from h] at this

theorem localRelease_jobs (p : LocalPool) (tok : Nat) :
    (localDispatcher.release tok p).jobs = p.jobs :=
  (releaseLocked_sameWork p tok).jobs

/-- The only step of a handler that adds a job is a commit, and the job is
the submission it passes on. -/
theorem handlerStep_jobs {p p' : LocalPool} {w w' : World} {st st' : HStage}
    (h : HandlerStep localDispatcher p w st p' w' st') (y : String) :
    p'.jobs.count y =
      p.jobs.count y + (Party.passes y (.handler st) (.handler st')).toNat := by
  cases h with
  | commit hst hcommit =>
    rw [(localCommit_ok hcommit).2, List.count_append]
    rcases hst with rfl | rfl <;> simp [Party.passes, List.count_singleton, Bool.toNat]
  | quiet => rw [Party.passes_self]; rfl
  | reserve hres => rw [localReserve_jobs hres, Party.passes_self]; rfl
  | release => rw [localRelease_jobs, Party.passes_self]; rfl
  | refuse hres | refuseResume hres => rw [localReserve_jobs hres]; rfl
  | commitFailed hcommit | resumeFailed hcommit => rw [(localCommit_error hcommit).2]; rfl
  | _ => rfl

/-! ## The invariant -/

/-- The copies a thread holds are its own. -/
def LocalThread.Formed : LocalThread → Prop
  | .handler h => h.Fresh
  | .worker r _ => r.Owns
  | .ended => True

structure LocalInv (s : LocalState) : Prop where
  parties : Parties s.world (fun id => s.pool.jobs.count id) s.issued
    (s.threads.map LocalThread.party)
  formed : ∀ t ∈ s.threads, t.Formed

theorem localDispatcher_keeps : KeepsSubmissions localDispatcher :=
  fun _ _ _ _ _ => rfl

/-! ## Steps of the system -/

section Inv

variable {s s' : LocalState} {i : Nat} {t t' : LocalThread}

theorem party_getElem? (hi : s.threads[i]? = some t) :
    (s.threads.map LocalThread.party)[i]? = some t.party := by
  rw [List.getElem?_map, hi]
  rfl

/-- What a step of the system means for the submissions. -/
structure StepKept (a : LocalAction) (s s' : LocalState) : Prop where
  inv : LocalInv s'
  change : ∀ id, StatusChange (s.world.status id) (s'.world.status id)
  claims : ∀ id, s.world.status id = some .deferred → s'.world.status id = some .running →
    ∃ i ch, a = .handler i ch ∧ s.threads[i]? = some (.handler (.resumeClaim id))

theorem StepKept.of_world {a : LocalAction} (hinv : LocalInv s') (hworld : s'.world = s.world) :
    StepKept a s s' where
  inv := hinv
  change id := by rw [hworld]; exact .same _
  claims id hd hr := by rw [hworld, hd] at hr; cases hr

theorem StepKept.of_move {a : LocalAction} (h : LocalInv s) (hi : s.threads[i]? = some t)
    {k : String} {world : World} {pool : LocalPool}
    (hk : Kept k s.world t.party world t'.party) (hformed : t'.Formed)
    (hjobs : ∀ y, pool.jobs.count y = s.pool.jobs.count y + (t.party.passes y t'.party).toNat)
    (ha : ∀ id, t.party = .handler (.claiming id) →
      t = .handler (.resumeClaim id) ∧ ∃ ch, a = .handler i ch) :
    StepKept a s { s with world := world, pool := pool, threads := s.threads.set i t' } where
  inv := by
    refine ⟨?_, fun u hu => ?_⟩
    · rw [List.map_set]
      exact h.parties.move (party_getElem? hi) hk hjobs
    · rcases mem_set_cases hu with rfl | hold
      · exact hformed
      · exact h.formed u hold
  change id := by
    by_cases hid : id = k
    · rw [hid]
      exact hk.change
    · rw [hk.status_others hid]
      exact .same _
  claims id hd hr := by
    by_cases hid : id = k
    · subst hid
      obtain ⟨rfl, ch, rfl⟩ := ha id (hk.claims hd hr)
      exact ⟨i, ch, rfl, hi⟩
    · rw [hk.status_others hid, hd] at hr
      cases hr

theorem LocalInv.spawn (h : LocalInv s) {pool : LocalPool} {issued : List String}
    (hcount : ∀ y, pool.jobs.count y + tenancy.holds y t.party = s.pool.jobs.count y)
    (hexpects : t.party.expects = none) (hformed : t.Formed) (hsound : t.party.Sound)
    (hissued : ∀ y ∈ s.issued, y ∈ issued)
    (hdraws : ∀ y, t.party.draws = some y → y ∉ s.issued ∧ y ∈ issued) :
    LocalInv { s with pool := pool, issued := issued, threads := s.threads ++ [t] } where
  parties := by
    rw [List.map_append]
    exact h.parties.spawn hcount hexpects hsound hissued hdraws
  formed u hu := by
    rcases List.mem_append.mp hu with hold | hnew
    · exact h.formed u hold
    · exact List.mem_singleton.mp hnew ▸ hformed

theorem handlerStep_stepKept (h : LocalInv s) {hd hd' : Handler} {ch : HandlerChoice}
    (hi : s.threads[i]? = some (.handler hd)) (hok : ch.storeErr = none) {pool : LocalPool}
    {world : World} (hstep : hd.step localDispatcher ch s.pool s.world = some (pool, world, hd')) :
    StepKept (.handler i ch) s
      { s with pool := pool, world := world, threads := s.threads.set i (.handler hd') } := by
  obtain ⟨hfresh, hstage⟩ :=
    Handler.step_stage hok (h.formed _ (List.mem_of_getElem? hi)) hstep
  obtain ⟨k, hk⟩ := h.parties.handler localDispatcher_keeps (party_getElem? hi) hstage
  refine .of_move h hi hk hfresh (handlerStep_jobs hstage) fun id hid => ⟨?_, ch, rfl⟩
  rw [handler_of_claiming (Party.handler.inj hid)]

end Inv

section Given

variable [GoStd] {o : Orchestrator} {s s' : LocalState}

theorem runStep_stepKept (h : LocalInv s) {i : Nat} {r r' : Run} {env : RunEnv} {ch : Choice}
    (hi : s.threads[i]? = some (.worker r env)) (hok : ch.storeErr = none) {world : World}
    (hstep : r.step o env ch s.world = some (world, r')) :
    StepKept (.run i ch) s
      { s with world := world, threads := s.threads.set i (.worker r' env) } := by
  obtain ⟨hid, howns, hstage⟩ :=
    Run.step_stage hok (h.formed _ (List.mem_of_getElem? hi)) hstep
  have hk := h.parties.run (party_getElem? hi) hstage
  rw [← hid] at hk
  refine .of_move h hi (k := r'.subID) ?_ howns (fun y => rfl) (fun id ht => by cases ht)
  simpa only [LocalThread.party, hid] using hk

/-- **Every step keeps the invariant and changes statuses legally.** -/
theorem localStep_kept (h : LocalInv s) {a : LocalAction} (hok : a.StoreOk)
    (hstep : localStep o a s = some s') : StepKept a s s' := by
  -- a new handler that has drawn no id
  have spawned (hd : Handler) (hfresh : hd.Fresh) (hidle : hd.stage.holder = none)
      (hexp : hd.stage.expects = none) (hdraws : hd.stage.draws = none)
      (hsound : (Party.handler hd.stage).Sound) : StepKept a s (s.spawn (.handler hd)) :=
    .of_world (h.spawn (fun y => by simp [tenancy, LocalThread.party, Party.holder, hidle]) hexp
      hfresh hsound (fun _ h => h) (fun y hy => by cases hdraws.symm.trans hy)) rfl
  cases localStep_move hstep with
  | refused => exact spawned _ trivial rfl rfl rfl (fun _ _ hc => by cases hc)
  | create hnew hcheck =>
    rename_i req' hash id now
    refine .of_world (h.spawn (fun y => rfl) rfl rfl (fun _ _ hc => by cases hc)
      (fun y hy => List.mem_cons_of_mem id hy) (fun y hy => ?_)) rfl
    obtain rfl : id = y := Option.some.inj hy
    exact ⟨hnew, List.mem_cons_self⟩
  | resume | adjudicate => exact spawned _ trivial rfl rfl rfl (fun _ _ hc => by cases hc)
  | handler hi hcall => exact handlerStep_stepKept h hi hok hcall
  | take htake =>
    refine .of_world (h.spawn (fun y => ?_) rfl (Pc.owns_of_none rfl) (fun c hc => by cases hc)
      (fun _ h => h) (fun y hy => by cases hy)) rfl
    simpa [tenancy, LocalThread.party, Party.holder, Pc.stage] using take_jobs htake y
  | run hi hcall => exact runStep_stepKept h hi hok hcall
  | finish hi hfin hpool =>
    rename_i r env pool
    refine .of_move h hi (.still r.subID rfl (fun y => ?_) (fun _ _ he => by cases he)
      (fun _ hd => by cases hd) trivial) trivial
      (fun y => by rw [(finish_cases hpool).2.2.1]; rfl)
      (fun id ht => by cases ht)
    simp [tenancy, LocalThread.party, Party.holder, Party.passes, runFinished_done hfin]
  | close => exact .of_world ⟨h.parties, h.formed⟩ rfl

theorem localInv_init (h : (localSys o).init s) : LocalInv s := by
  obtain ⟨⟨room, cfg, hpool⟩, hthreads, hrest⟩ := h
  have hjobs := (newLocalPool_cases hpool).1
  refine ⟨?_, fun t ht => by rw [hthreads] at ht; cases ht⟩
  rw [hthreads]
  refine .nil (fun id => ?_) (fun id hid => ?_)
  · rw [hjobs]
    cases hst : s.world.status id with
    | none => rfl
    | some st =>
      rw [isLive_terminal (hrest id st hst).1]
      rfl
  · obtain ⟨st, hst⟩ := Option.isSome_iff_exists.mp hid
    exact (hrest id st hst).2

theorem localInv_reach (h : (localSys o).Reach (fun _ a => a.StoreOk) s) : LocalInv s :=
  h.invariant (fun _ => localInv_init)
    (fun _ _ _ hinv hok hstep => (localStep_kept hinv hok hstep).inv)

omit [GoStd] in
/-- Jobs and runs are among the holders. -/
theorem LocalInv.working_le (h : LocalInv s) (id : String) : s.working id ≤ 1 := by
  have hheld := h.parties.held.held id
  have hone := Bool.toNat_le (tenancy.live (s.world.status id))
  have hle : weigh (fun t : LocalThread => (decide (t.runs = some id)).toNat) s.threads ≤
      weigh (tenancy.holds id) (s.threads.map LocalThread.party) := by
    rw [weigh_map]
    refine weigh_le_weigh _ fun t _ => ?_
    cases t with
    | handler hd => simp [LocalThread.runs]
    | worker r env => exact Nat.le_refl _
    | ended => simp [LocalThread.runs]
  unfold LocalState.working
  omega

/-- **The lifecycle of submissions in local mode.** In every state
reached by any interleaving, a submission has at most one job or
unfinished run; every step changes statuses legally, leaves completed
and failed submissions alone, and makes a deferred submission run only
where a handler calls `ClaimResume` for it. -/
theorem local_status_lifecycle (h : (localSys o).Reach (fun _ a => a.StoreOk) s) :
    (∀ id, s.working id ≤ 1) ∧
      ∀ a s', a.StoreOk → (localSys o).step a s = some s' → ∀ id,
        StatusChange (s.world.status id) (s'.world.status id) ∧
        (s.world.status id = some .completed ∨ s.world.status id = some .failed →
          s'.world.status id = s.world.status id) ∧
        (s.world.status id = some .deferred → s'.world.status id = some .running →
          ∃ i ch, a = .handler i ch ∧ s.threads[i]? = some (.handler (.resumeClaim id))) := by
  have hinv := localInv_reach h
  refine ⟨hinv.working_le, fun a s' hok hstep id => ?_⟩
  have hkept := localStep_kept hinv hok hstep
  exact ⟨hkept.change id, (hkept.change id).final_kept, hkept.claims id⟩

end Given

/-- A new process with one worker and room for one submission. -/
def LocalState.fresh : LocalState where
  world := {}
  pool := { maxInflight := 1, workers := 1, unlimited := false, closed := false, sem := 0
            jobs := [], running := [], tokens := [] }
  threads := []
  issued := []

theorem LocalState.reach_fresh [GoStd] {o : Orchestrator} :
    (localSys o).Reach (fun _ a => a.StoreOk) LocalState.fresh :=
  Sys.Reach.init ⟨⟨16, { maxInflight := 1, workers := 1 }, rfl⟩, rfl, fun id st h => by cases h⟩

/-- A submission is created and taken by a worker, which is about to
complete it. -/
theorem local_status_lifecycle_completing :
    ∃ s s', (@localSys GoStd.plain (@Orchestrator.plain GoStd.plain)).Reach
        (fun _ a => a.StoreOk) s ∧
      (@localSys GoStd.plain (@Orchestrator.plain GoStd.plain)).step (.run 1 {}) s = some s' ∧
      s.world.status "sub_a" = some .running ∧ s'.world.status "sub_a" = some .completed ∧
      s.working "sub_a" ≤ 1 ∧
      StatusChange (s.world.status "sub_a") (s'.world.status "sub_a") := by
  let _ := GoStd.plain
  let acts : List LocalAction :=
    [.create { artifact := { purl := some "pkg:npm/a@1" } } "h" "sub_a" 0,
     .handler 0 {}, .handler 0 {}, .handler 0 {}, .take 0 (RunEnv.plain "a" (.error "")),
     .run 1 {}, .run 1 {}, .run 1 {}, .run 1 {}, .run 1 {}, .run 1 {}]
  -- the run evaluates, and so does the step after it
  have hrun : ((localSys Orchestrator.plain).run (fun _ a => a.StoreOk) acts .fresh).map (fun s =>
      (s.world.status "sub_a", (localStep Orchestrator.plain (.run 1 {}) s).map fun s' =>
        s'.world.status "sub_a")) = some (some .running, some (some .completed)) := by
    decide +kernel
  obtain ⟨s, hreach, heq⟩ := LocalState.reach_fresh.of_run_map hrun
  simp only [Prod.mk.injEq, Option.map_eq_some_iff] at heq
  obtain ⟨hrunning, s', hs', hcompleted⟩ := heq
  have hlife := local_status_lifecycle hreach
  exact ⟨s, s', hreach, hs', hrunning, hcompleted, hlife.1 "sub_a",
    (hlife.2 (.run 1 {}) s' rfl hs' "sub_a").1⟩

/-! ## At rest -/

/-- A thread at rest answers for no submission. -/
theorem LocalThread.holds_atRest {t : LocalThread} (h : t.atRest = true) (id : String) :
    tenancy.holds id t.party = 0 := by
  cases t with
  | handler hd =>
    cases hd with
    | answered answer => rfl
    | _ => cases h
  | worker r env =>
    have hdone : r.pc.stage = .done := runFinished_done h
    simp [tenancy, LocalThread.party, Party.holder, hdone]
  | ended => rfl

/-- A stored status that is not live is a final one. -/
theorem isTerminal_of_not_live {st : SubmissionStatus} (h : isLive (some st) = false) :
    isTerminal st = true := by
  cases st with
  | accepted => cases h
  | running => cases h
  | completed => rfl
  | failed => rfl
  | deferred => rfl

section Given

variable [GoStd] {o : Orchestrator} {s : LocalState}

/-- **Nothing is left behind.** Whatever handlers, workers, `Close` and
cancellations did on the way: when no handler is in progress, no job
queued and no `Process` running, every stored submission is completed,
failed or deferred. -/
theorem quiescent_all_settled (h : (localSys o).Reach (fun _ a => a.StoreOk) s)
    (hquiet : s.Quiescent) :
    ∀ id st, s.world.status id = some st → isTerminal st = true := by
  intro id st hst
  have hheld := (localInv_reach h).parties.held.held id
  -- neither a job nor a thread holds it
  have hjobs : s.pool.jobs.count id = 0 := by rw [hquiet.1]; rfl
  have hthreads : weigh (tenancy.holds id) (s.threads.map LocalThread.party) = 0 := by
    refine weigh_eq_zero _ ?_
    intro p hp
    obtain ⟨t, ht, rfl⟩ := List.mem_map.mp hp
    exact LocalThread.holds_atRest (hquiet.2 t ht) id
  have hlive : (isLive (some st)).toNat = 0 := by
    have hval : (tenancy.live (s.world.status id)).toNat = 0 := by omega
    rwa [hst] at hval
  exact isTerminal_of_not_live (Bool.toNat_eq_zero.mp hlive)

end Given

/-- A submission is created, the pool is closed with its job still in it,
and the run finds its context cancelled. -/
theorem quiescent_all_settled_interrupted :
    ∃ s, (@localSys GoStd.plain (@Orchestrator.plain GoStd.plain)).Reach
        (fun _ a => a.StoreOk) s ∧
      s.Quiescent ∧ s.pool.closed = true ∧ s.world.status "sub_a" = some .failed ∧
      isTerminal .failed = true := by
  let _ := GoStd.plain
  let acts : List LocalAction :=
    [.create { artifact := { purl := some "pkg:npm/a@1" } } "h" "sub_a" 0,
     .handler 0 {}, .handler 0 {}, .handler 0 {}, .close,
     .take 0 (RunEnv.plain "a" (.error "")), .run 1 { cancelled := some "context canceled" },
     .run 1 {}, .run 1 {}, .run 1 {}, .finish 1]
  have hrun : ((localSys Orchestrator.plain).run (fun _ a => a.StoreOk) acts .fresh).map (fun s =>
      (decide s.Quiescent, s.pool.closed, s.world.status "sub_a")) =
        some (true, true, some .failed) := by
    decide +kernel
  obtain ⟨s, hreach, heq⟩ := LocalState.reach_fresh.of_run_map hrun
  simp only [Prod.mk.injEq, decide_eq_true_eq] at heq
  obtain ⟨hquiet, hclosed, hfailed⟩ := heq
  exact ⟨s, hreach, hquiet, hclosed, hfailed,
    quiescent_all_settled hreach hquiet "sub_a" .failed hfailed⟩

end Scintx.System
