/-
Scintx.System.Queue — gateways in queue mode: any number of processes,
each with its handlers and workers, on one store.

A process has its own pool, event emitter and cache; the store, with the
job rows in it, is shared. `QueueState.world` is what a thread of one
process sees. As in `Scintx.System.Local` an interleaving is a list of
actions. Added to it are what only queue mode has: a worker's claim, a
heartbeat, and a CRASH of a thread at any place. A panic in `runClaimed`
is a crash followed by the start of a worker with the same name; the end
of a process is a crash of all its threads.

Each action brings the clock values its calls read. A lease has expired
when a claim reads a clock past its end, so lease expiry is a choice of
the claim.
-/
import Scintx.System.Parties
import Scintx.Workers.RunClaimed

namespace Scintx.System

open Scintx.Lib Scintx.Api Scintx.Store Scintx.Orchestrator Scintx.Workers Scintx.Server

/-- The pool as the handlers' dispatcher. -/
def queueDispatcher : Dispatcher QueuePool where
  reserve ctxErr p w := p.reserve w.store.jobs ctxErr
  commit now tok subID p w :=
    ((p.commit w.store.jobs now tok subID).1, (p.commit w.store.jobs now tok subID).2.1,
      w.setJobs (p.commit w.store.jobs now tok subID).2.2)
  release tok p := p.release tok

/-- What a process does not share. -/
structure Gateway where
  pool : QueuePool
  emitter : EventEmitter := { source := "", seq := 0 }
  cache : GoMap ProviderResult := ∅

/-- A thread of the process `g`. -/
inductive QueueThread where
  | handler (g : Nat) (h : Handler)
  | worker (g n : Nat) (pc : WorkerPc)
  | ended

structure QueueState where
  store : MemoryStore
  gateways : List Gateway
  threads : List QueueThread
  /-- The submission ids drawn so far. -/
  issued : List String

inductive QueueAction where
  -- a process starts, and the `n`th worker of a process
  | boot (cfg : QueueConfig) (defaultWorkerID source : String)
  | start (g n : Nat)
  -- a request comes in
  | create (g : Nat) (req : CreateRequest) (hash id : String) (now : Time)
  | resume (g : Nat) (id : String)
  | adjudicate (g : Nat) (id : String) (req : AdjudicateRequest)
  -- a handler or a worker makes its next call
  | handler (i : Nat) (ch : HandlerChoice)
  | worker (i : Nat) (env : RunEnv) (ch : Choice)
  -- the heartbeat goroutine of a worker, which may outlive the run
  | heartbeat (i : Nat) (id : String) (now : Time)
  | crash (i : Nat)
  -- shutdown of a process
  | close (g : Nat)

/-- The store as a thread of the process sees it. -/
def Gateway.world (gw : Gateway) (store : MemoryStore) : World :=
  { store := store, emitter := gw.emitter, cache := gw.cache }

def QueueState.spawn (s : QueueState) (t : QueueThread) : QueueState :=
  { s with threads := s.threads ++ [t] }

/-- A thread of the process `g` has made a call. -/
def QueueState.move (s : QueueState) (i g : Nat) (t : QueueThread) (w : World) (pool : QueuePool) :
    QueueState :=
  { s with
    store := w.store
    gateways := s.gateways.set g { pool := pool, emitter := w.emitter, cache := w.cache }
    threads := s.threads.set i t }

section Given

variable [GoStd]

def queueStep (o : Orchestrator) : QueueAction → QueueState → Option QueueState
  | .boot cfg workerID source, s =>
    let gw : Gateway :=
      { pool := newQueuePool cfg workerID, emitter := { source := source, seq := 0 } }
    some { s with gateways := s.gateways ++ [gw] }
  | .start g n, s => some (s.spawn (.worker g n .polling))
  | .create g req hash id now, s =>
    if id ∈ s.issued then none
    else
      match checkCreate req with
      | .error answer => some (s.spawn (.handler g (.answered answer)))
      | .ok req =>
        let s := { s with issued := id :: s.issued }
        some (s.spawn (.handler g
          (.createReserve req.idempotencyKey hash (newSubmission req id now))))
  | .resume g id, s => some (s.spawn (.handler g (.resumeClaim id)))
  | .adjudicate g id req, s => some (s.spawn (.handler g (.adjudicateGet id req)))
  | .handler i ch, s =>
    match s.threads[i]? with
    | some (.handler g h) =>
      (s.gateways[g]?).bind fun gw =>
        (h.step queueDispatcher ch gw.pool (gw.world s.store)).map fun (pool, w, h) =>
          s.move i g (.handler g h) w pool
    | _ => none
  | .worker i env ch, s =>
    match s.threads[i]? with
    | some (.worker g n pc) =>
      (s.gateways[g]?).bind fun gw =>
        (pc.step o gw.pool (gw.pool.workerOwner n) env ch (gw.world s.store)).map fun (w, pc) =>
          s.move i g (.worker g n pc) w gw.pool
    | _ => none
  | .heartbeat i id now, s =>
    match s.threads[i]? with
    | some (.worker g n _) =>
      (s.gateways[g]?).map fun gw =>
        { s with store := { s.store with
            jobs := (heartbeatJob s.store.jobs id (gw.pool.workerOwner n) gw.pool.lease now).2 } }
    | _ => none
  | .crash i, s => some { s with threads := s.threads.set i .ended }
  | .close g, s =>
    (s.gateways[g]?).map fun gw =>
      { s with gateways := s.gateways.set g { gw with pool := gw.pool.close } }

/-- No process has started; every stored submission and every job is one
of an id that was drawn. -/
def queueSys (o : Orchestrator) : Sys QueueState QueueAction where
  init s := s.gateways = [] ∧ s.threads = [] ∧
    ∀ id, (s.store.status id).isSome ∨ hasJob s.store.jobs id = true → id ∈ s.issued
  step := queueStep o

end Given

/-- No store call of the step fails. -/
def QueueAction.StoreOk : QueueAction → Prop
  | .handler _ ch => ch.storeErr = none
  | .worker _ _ ch => ch.storeErr = none
  | _ => True

instance : DecidablePred QueueAction.StoreOk
  | .handler _ ch => inferInstanceAs (Decidable (ch.storeErr = none))
  | .worker _ _ ch => inferInstanceAs (Decidable (ch.storeErr = none))
  | .boot .. | .start .. | .create .. | .resume .. | .adjudicate .. | .heartbeat .. | .crash _
  | .close _ => .isTrue trivial

/-! ## The calls of a step -/

section Given

variable [GoStd] (o : Orchestrator) (s : QueueState)

/-- The results of `queueStep`, with the calls that make them. No store
call is assumed to succeed. -/
inductive QueueCall : QueueAction → QueueState → Prop
  | boot (cfg : QueueConfig) (workerID source : String) (gw : Gateway) :
      QueueCall (.boot cfg workerID source) { s with gateways := s.gateways ++ [gw] }
  | start (g n : Nat) : QueueCall (.start g n) (s.spawn (.worker g n .polling))
  | refused {g : Nat} {req : CreateRequest} {hash id : String} {now : Time} (answer : Response) :
      QueueCall (.create g req hash id now) (s.spawn (.handler g (.answered answer)))
  | create {g : Nat} {req req' : CreateRequest} {hash id : String} {now : Time}
      (hnew : id ∉ s.issued) (hcheck : checkCreate req = .ok req') :
      QueueCall (.create g req hash id now)
        ({ s with issued := id :: s.issued }.spawn
          (.handler g (.createReserve req'.idempotencyKey hash (newSubmission req' id now))))
  | resume (g : Nat) (id : String) :
      QueueCall (.resume g id) (s.spawn (.handler g (.resumeClaim id)))
  | adjudicate (g : Nat) (id : String) (req : AdjudicateRequest) :
      QueueCall (.adjudicate g id req) (s.spawn (.handler g (.adjudicateGet id req)))
  | handler {i g : Nat} {ch : HandlerChoice} {h h' : Handler} {gw : Gateway} {pool : QueuePool}
      {w : World} (hi : s.threads[i]? = some (.handler g h)) (hgw : s.gateways[g]? = some gw)
      (hcall : h.step queueDispatcher ch gw.pool (gw.world s.store) = some (pool, w, h')) :
      QueueCall (.handler i ch) (s.move i g (.handler g h') w pool)
  | worker {i g n : Nat} {env : RunEnv} {ch : Choice} {pc pc' : WorkerPc} {gw : Gateway}
      {w : World} (hi : s.threads[i]? = some (.worker g n pc)) (hgw : s.gateways[g]? = some gw)
      (hcall : pc.step o gw.pool (gw.pool.workerOwner n) env ch (gw.world s.store) =
        some (w, pc')) : QueueCall (.worker i env ch) (s.move i g (.worker g n pc') w gw.pool)
  | heartbeat {i g n : Nat} {id : String} {now : Time} {pc : WorkerPc} {jobs : JobTable}
      (hi : s.threads[i]? = some (.worker g n pc))
      (hjobs : ∀ y, hasJob jobs y = hasJob s.store.jobs y) :
      QueueCall (.heartbeat i id now) { s with store := { s.store with jobs := jobs } }
  | crash (i : Nat) : QueueCall (.crash i) { s with threads := s.threads.set i .ended }
  | close {g : Nat} {gw : Gateway} (hgw : s.gateways[g]? = some gw) :
      QueueCall (.close g)
        { s with gateways := s.gateways.set g { gw with pool := gw.pool.close } }

variable {o s} {s' : QueueState}

theorem queueStep_call {a : QueueAction} (h : queueStep o a s = some s') : QueueCall o s a s' := by
  cases a with
  | boot cfg workerID source =>
    cases h
    exact .boot cfg workerID source _
  | start g n =>
    cases h
    exact .start g n
  | create g req hash id now =>
    simp only [queueStep] at h
    split at h
    · cases h
    · rename_i hnew
      split at h <;> cases h
      · exact .refused _
      · rename_i hcheck
        exact .create hnew hcheck
  | resume g id =>
    cases h
    exact .resume g id
  | adjudicate g id req =>
    cases h
    exact .adjudicate g id req
  | handler i ch =>
    simp only [queueStep] at h
    split at h
    · rename_i hi
      obtain ⟨gw, hgw, h⟩ := Option.bind_eq_some_iff.mp h
      obtain ⟨⟨pool, w, h'⟩, hcall, rfl⟩ := Option.map_eq_some_iff.mp h
      exact .handler hi hgw hcall
    · cases h
  | worker i env ch =>
    simp only [queueStep] at h
    split at h
    · rename_i hi
      obtain ⟨gw, hgw, h⟩ := Option.bind_eq_some_iff.mp h
      obtain ⟨⟨w, pc'⟩, hcall, rfl⟩ := Option.map_eq_some_iff.mp h
      exact .worker hi hgw hcall
    · cases h
  | heartbeat i id now =>
    simp only [queueStep] at h
    split at h
    · rename_i hi
      obtain ⟨gw, -, rfl⟩ := Option.map_eq_some_iff.mp h
      exact .heartbeat hi fun y => hasJob_heartbeatJob ..
    · cases h
  | crash i =>
    cases h
    exact .crash i
  | close g =>
    obtain ⟨gw, hgw, rfl⟩ := Option.map_eq_some_iff.mp h
    exact .close hgw

end Given

/-! ## What a thread is doing -/

/-- The stage of a worker; handlers are `out`. -/
def QueueThread.work : QueueThread → WStage
  | .worker _ _ pc => pc.stage
  | _ => .out

/-- The stage of a handler; workers are idle. -/
def QueueThread.serves : QueueThread → HStage
  | .handler _ h => h.stage
  | _ => .idle

/-- The copies a thread holds are its own. -/
def QueueThread.Formed : QueueThread → Prop
  | .handler _ h => h.Fresh
  | .worker _ _ pc => pc.Formed
  | .ended => True

/-- A new thread has no job and serves nothing yet. It may have drawn an
id. -/
structure QueueThread.New (issued issued' : List String) (t : QueueThread) : Prop where
  formed : t.Formed
  work : t.work = .out
  serves : t.serves = .idle ∨ (∃ id, t.serves = .claiming id) ∨
    ∃ id, t.serves = .pending id ∧ id ∉ issued ∧ id ∈ issued'

/-- What a step does to the submissions and the job rows, whatever process
it is of. -/
inductive QueueMove (s s' : QueueState) : QueueAction → Prop
  | spawn {a : QueueAction} {t : QueueThread} (hstore : s'.store = s.store)
      (hthreads : s'.threads = s.threads ++ [t]) (hissued : ∀ y ∈ s.issued, y ∈ s'.issued)
      (hnew : t.New s.issued s'.issued) : QueueMove s s' a
  | handler {i g : Nat} {ch : HandlerChoice} {h h' : Handler} {p p' : QueuePool} {w w' : World}
      (hi : s.threads[i]? = some (.handler g h)) (hw : w.store = s.store)
      (hw' : w'.store = s'.store) (hthreads : s'.threads = s.threads.set i (.handler g h'))
      (hissued : s'.issued = s.issued) (hfresh : h'.Fresh)
      (hcall : h.step queueDispatcher ch p w = some (p', w', h'))
      (hstep : HandlerStep queueDispatcher p w h.stage p' w' h'.stage) :
      QueueMove s s' (.handler i ch)
  | worker {i g n : Nat} {env : RunEnv} {ch : Choice} {pc pc' : WorkerPc} {w w' : World}
      (hi : s.threads[i]? = some (.worker g n pc)) (hw : w.store = s.store)
      (hw' : w'.store = s'.store) (hthreads : s'.threads = s.threads.set i (.worker g n pc'))
      (hissued : s'.issued = s.issued) (hformed : pc'.Formed)
      (hstep : WorkerStep w pc.stage w' pc'.stage) : QueueMove s s' (.worker i env ch)
  | rows {a : QueueAction} (hsub : s'.store.submissions = s.store.submissions)
      (hrows : ∀ y, hasJob s'.store.jobs y = hasJob s.store.jobs y)
      (hthreads : s'.threads = s.threads) (hissued : s'.issued = s.issued) : QueueMove s s' a
  | crash {i : Nat} (hstore : s'.store = s.store) (hthreads : s'.threads = s.threads.set i .ended)
      (hissued : s'.issued = s.issued) : QueueMove s s' (.crash i)

/-! ## Rows -/

theorem queueCommit_submissions {p p' : QueuePool} {w w' : World} {now : Time} {tok : Nat}
    {id : String} {out : Except DispatchError Unit}
    (h : queueDispatcher.commit now tok id p w = (out, p', w')) :
    w'.store.submissions = w.store.submissions := by
  simp only [queueDispatcher, Prod.mk.injEq] at h
  obtain ⟨-, -, rfl⟩ := h
  rfl

theorem queueCommit_ok {p p' : QueuePool} {w w' : World} {now : Time} {tok : Nat} {id : String}
    (h : queueDispatcher.commit now tok id p w = (.ok (), p', w')) :
    enqueueJob w.store.jobs now id = .ok w'.store.jobs := by
  simp only [queueDispatcher, Prod.mk.injEq] at h
  obtain ⟨hok, -, rfl⟩ := h
  rcases p.commit_cases w.store.jobs now tok id with ⟨-, henq⟩ | ⟨⟨e, herr⟩, -⟩
  · exact henq
  · cases hok.symm.trans herr

theorem queueCommit_error {p p' : QueuePool} {w w' : World} {now : Time} {tok : Nat} {id : String}
    {e : DispatchError} (h : queueDispatcher.commit now tok id p w = (.error e, p', w')) :
    w'.store.jobs = w.store.jobs := by
  simp only [queueDispatcher, Prod.mk.injEq] at h
  obtain ⟨herr, -, rfl⟩ := h
  rcases p.commit_cases w.store.jobs now tok id with ⟨hok, -⟩ | ⟨-, hjobs⟩
  · cases herr.symm.trans hok
  · exact hjobs

/-- A handler adds the row of the submission it passes on, removes the row
of one it abandons, and leaves all others. -/
theorem handlerStep_rows {p p' : QueuePool} {w w' : World} {st st' : HStage}
    (h : HandlerStep queueDispatcher p w st p' w' st') :
    (∀ y, hasJob w'.store.jobs y = hasJob w.store.jobs y) ∨
      (∃ id, (st = .admitting id ∨ st = .resuming id) ∧ st' = .idle ∧
        ∀ y, hasJob w'.store.jobs y = (decide (y = id) || hasJob w.store.jobs y)) ∨
      (∃ id, st = .abandoning id ∧ w'.status id = none ∧
        ∀ y, hasJob w'.store.jobs y = (!decide (y = id) && hasJob w.store.jobs y)) := by
  cases h with
  | commit hst hcommit =>
    exact .inr (.inl ⟨_, hst, rfl, hasJob_enqueueJob (queueCommit_ok hcommit)⟩)
  | commitFailed hcommit | resumeFailed hcommit =>
    exact .inl fun y => congrArg (hasJob · y) (queueCommit_error hcommit)
  | quiet hadm => exact .inl fun y => congrArg (hasJob · y) hadm.jobs
  | create =>
    exact .inl fun y => congrArg (hasJob · y) (w.store.bindSubmission_jobs ..)
  | abandon =>
    rename_i id key
    by_cases hacc : w.store.status id = some .accepted
    · refine .inr (.inr ⟨id, rfl, ?_, fun y => ?_⟩)
      · rw [World.status, MemoryStore.status_abandonSubmission, if_pos ⟨rfl, hacc⟩]
      · simp only [(MemoryStore.abandonSubmission_ok hacc).2, hasJob_deleteJob]
    · exact .inl fun y => by rw [MemoryStore.abandonSubmission_rejected hacc]
  | claim hclaim =>
    obtain ⟨-, row, -, -, rfl⟩ := MemoryStore.claimResume_ok hclaim
    exact .inl fun _ => rfl
  | unclaim =>
    rename_i id
    refine .inl fun y => ?_
    rcases w.store.releaseResume_cases id with ⟨-, heq⟩ | ⟨-, row, -, -, heq⟩
    · rw [heq]
    · rw [heq]
      rfl
  | _ => exact .inl fun _ => rfl

theorem queueDispatcher_keeps : KeepsSubmissions queueDispatcher :=
  fun _ _ _ _ _ => rfl

theorem QueueMove.formed {s s' : QueueState} {a : QueueAction} (hformed : ∀ t ∈ s.threads, t.Formed)
    (h : QueueMove s s' a) : ∀ t ∈ s'.threads, t.Formed := by
  intro t ht
  cases h with
  | spawn _ hthreads _ hnew =>
    rw [hthreads] at ht
    rcases List.mem_append.mp ht with hold | hsing
    · exact hformed t hold
    · exact List.mem_singleton.mp hsing ▸ hnew.formed
  | handler _ _ _ hthreads _ hfresh =>
    rw [hthreads] at ht
    rcases mem_set_cases ht with rfl | hold
    · exact hfresh
    · exact hformed t hold
  | worker _ _ _ hthreads _ hpc =>
    rw [hthreads] at ht
    rcases mem_set_cases ht with rfl | hold
    · exact hpc
    · exact hformed t hold
  | rows _ _ hthreads => exact hformed t (hthreads ▸ ht)
  | crash _ hthreads =>
    rw [hthreads] at ht
    rcases mem_set_cases ht with rfl | hold
    · trivial
    · exact hformed t hold

section Given

variable [GoStd] {o : Orchestrator} {s s' : QueueState}

/-- **Every step is one of the moves.** -/
theorem queueStep_move {a : QueueAction} (hok : a.StoreOk) (hformed : ∀ t ∈ s.threads, t.Formed)
    (h : queueStep o a s = some s') : QueueMove s s' a := by
  have spawned (t : QueueThread) (hnew : t.New s.issued s.issued) :
      QueueMove s (s.spawn t) a := .spawn rfl rfl (fun _ hy => hy) hnew
  cases queueStep_call h with
  | start => exact spawned _ ⟨trivial, rfl, .inl rfl⟩
  | create hnew =>
    exact .spawn rfl rfl (fun y hy => List.mem_cons_of_mem _ hy)
      ⟨rfl, rfl, .inr (.inr ⟨_, rfl, hnew, List.mem_cons_self⟩)⟩
  | resume g id => exact spawned _ ⟨trivial, rfl, .inr (.inl ⟨id, rfl⟩)⟩
  | refused | adjudicate => exact spawned _ ⟨trivial, rfl, .inl rfl⟩
  | handler hi hgw hcall =>
    obtain ⟨hfresh, hstage⟩ := Handler.step_stage hok (hformed _ (List.mem_of_getElem? hi)) hcall
    exact .handler hi rfl rfl rfl rfl hfresh hcall hstage
  | worker hi hgw hcall =>
    obtain ⟨hpc, hstage⟩ := WorkerPc.step_stage hok (hformed _ (List.mem_of_getElem? hi)) hcall
    exact .worker hi rfl rfl rfl rfl hpc hstage
  | heartbeat hi hjobs => exact .rows rfl hjobs rfl rfl
  | crash => exact .crash rfl rfl rfl
  | boot | close => exact .rows rfl (fun _ => rfl) rfl rfl

end Given

end Scintx.System
