/-
Scintx.System.QueueTenancy — when a submission in queue mode is written
by one party at a time.

The counting of `Scintx.System.Parties` does NOT hold of queue mode as
it is: a lease that ends while its worker is still at work lets a second
worker in, and both write. `runClaimed` checks only that the submission
is neither completed nor failed. It does not look for the first worker,
nor for a deferred submission whose worker died before `CompleteJob`.

What is proved here is that this check is the only hole. Whoever enters
`Process` past it must find the submission unattended
(`QueueState.Unattended`): then the counting holds in every state, with
any crashes, lease expiries, double claims and heartbeats, and with it
that final statuses stay. A job that no party holds is counted in `rest`,
whether its row exists or was lost.
-/
import Scintx.System.Queue

namespace Scintx.System

open Scintx.Lib Scintx.Api Scintx.Store Scintx.Orchestrator Scintx.Workers Scintx.Server

/-! ## The condition -/

/-- A worker that has yet to store the final status of `id`, or a resume
handler between `ClaimResume` and its `EnqueueJob` or `ReleaseResume`. -/
def QueueThread.attends (id : String) : QueueThread → Bool
  | .worker _ _ pc =>
    match pc.stage with
    | .exceeded k | .processing k _ => k = id
    | _ => false
  | .handler _ h =>
    match h.stage with
    | .resuming k | .reverting k => k = id
    | _ => false
  | .ended => false

/-- Nobody is at work on a submission, and it is not deferred. -/
def QueueState.Unattended (s : QueueState) (id : String) : Prop :=
  s.store.status id ≠ some .deferred ∧ ∀ t ∈ s.threads, t.attends id = false

instance (s : QueueState) (id : String) : Decidable (s.Unattended id) :=
  inferInstanceAs (Decidable (_ ∧ _))

/-- The submission that a worker is about to read in `runClaimed`. -/
def QueueAction.reads (s : QueueState) : QueueAction → Option String
  | .worker i _ _ =>
    match s.threads[i]? with
    | some (.worker _ _ (.claimed id _)) => some id
    | _ => none
  | _ => none

/-- A worker reads a submission in `runClaimed` only when it is
unattended. No other step is restricted. -/
def QueueAction.Orderly (s : QueueState) (a : QueueAction) : Prop :=
  ∀ id ∈ a.reads s, s.Unattended id

instance (s : QueueState) (a : QueueAction) : Decidable (a.Orderly s) :=
  inferInstanceAs (Decidable (∀ id ∈ a.reads s, s.Unattended id))

/-! ## The invariant -/

/-- What a worker is to the submissions. -/
def workerParty : WStage → Party
  | .exceeded id => .run id .failing
  | .processing id st => .run id st
  | .finishing id => .run id .done
  | .out | .claimed _ => .bystander

theorem workerParty_ne (st : WStage) (hs : HStage) : workerParty st ≠ .handler hs := by
  cases st <;> simp [workerParty]

/-- What a thread is to the submissions. -/
def QueueThread.party : QueueThread → Party
  | .handler _ h => .handler h.stage
  | .worker _ _ pc => workerParty pc.stage
  | .ended => .bystander

/-- A worker may come upon the submission: it has a row, or a claim that
was not followed up yet. -/
def QueueState.Queued (s : QueueState) (id : String) : Prop :=
  hasJob s.store.jobs id = true ∨ ∃ t ∈ s.threads, t.work = .claimed id

/-- The submission a create handler has not yet committed. -/
def precommit : HStage → Option String
  | .pending id | .admitting id | .abandoning id => some id
  | _ => none

/-- The shared part of what the threads see. -/
def QueueState.world (s : QueueState) : World := { store := s.store }

structure QueueInv (s : QueueState) : Prop where
  formed : ∀ t ∈ s.threads, t.Formed
  parties : ∃ rest, Parties s.world rest s.issued (s.threads.map QueueThread.party)
  /-- No worker comes upon a submission that is not committed. -/
  queued : ∀ id, s.Queued id →
    id ∈ s.issued ∧ ∀ t ∈ s.threads, precommit t.serves ≠ some id

/-! ## Steps of one thread -/

section Step

variable {s s' : QueueState} {i : Nat} {t t' : QueueThread} {rest : String → Nat}

theorem queueParty_getElem? (hi : s.threads[i]? = some t) :
    (s.threads.map QueueThread.party)[i]? = some t.party := by
  rw [List.getElem?_map, hi]
  rfl

/-- Only the table of submissions matters. -/
theorem Kept.of_submissions {k : String} {w w' u u' : World} {t t' : Party}
    (h : Kept k w t w' t') (hu : u.store.submissions = w.store.submissions)
    (hu' : u'.store.submissions = w'.store.submissions) : Kept k u t u' t' := by
  have hs : u.status = w.status := funext (World.status_of_submissions hu)
  have hs' : u'.status = w'.status := funext (World.status_of_submissions hu')
  have hr : u.record = w.record := by
    funext y
    rw [World.record, World.record, hu]
  have hr' : u'.record = w'.record := by
    funext y
    rw [World.record, World.record, hu']
  refine ⟨?_, ?_, ?_, ?_, ?_, h.sound, ?_, ?_, ?_⟩
  all_goals simp only [hs, hs', hr, hr']
  · exact h.others
  · exact h.writes
  · exact h.may
  · exact h.count
  · exact h.expected
  · exact h.drawn
  · exact h.change
  · exact h.claims

theorem Parties.of_submissions {w u : World} {issued : List String} {ps : List Party}
    (h : Parties w rest issued ps) (hu : u.store.submissions = w.store.submissions) :
    Parties u rest issued ps := by
  have hs : u.status = w.status := funext (World.status_of_submissions hu)
  refine ⟨?_, h.sound, ?_⟩
  · rw [hs]
    exact h.held
  · rw [hs]
    exact h.drawn

/-- A new thread holds nothing. -/
theorem QueueThread.New.party {issued issued' : List String} (h : t.New issued issued') :
    t.party.holder = none ∧ t.party.expects = none ∧ t.party.Sound ∧
      ∀ y, t.party.draws = some y → y ∉ issued ∧ y ∈ issued' := by
  obtain ⟨-, hwork, hserves⟩ := h
  cases t with
  | handler g hd =>
    simp only [QueueThread.party]
    rcases hserves with hs | ⟨id, hs⟩ | ⟨id, hs, hid⟩
    all_goals
      rw [show hd.stage = _ from hs]
      refine ⟨rfl, rfl, fun _ _ hc => (by cases hc), fun y hy => ?_⟩
      cases hy
    exact hid
  | worker g n pc =>
    simp only [QueueThread.party, show pc.stage = .out from hwork]
    exact ⟨rfl, rfl, trivial, fun y hy => by cases hy⟩
  | ended => exact ⟨rfl, rfl, trivial, fun y hy => by cases hy⟩

theorem HandlerStep.precommit {σ : Type} {d : Dispatcher σ} {p p' : σ} {w w' : World}
    {st st' : HStage} (h : HandlerStep d p w st p' w' st') {id : String}
    (hid : System.precommit st' = some id) : System.precommit st = some id := by
  cases h <;> first | exact hid | cases hid

/-- Who may write a live submission: the party of a create handler, or a
thread that attends to it. -/
theorem QueueThread.holder_cases {id : String} (h : t.party.holder = some id) :
    precommit t.serves = some id ∨ t.attends id = true := by
  match t with
  | .handler _ hd =>
    simp only [QueueThread.party, Party.holder, HStage.holder] at h
    simp only [QueueThread.serves, QueueThread.attends, precommit]
    split at h <;> simp_all
  | .worker _ _ pc =>
    right
    simp only [QueueThread.party, workerParty] at h
    simp only [QueueThread.attends]
    split at h <;> simp_all [Party.holder]
  | .ended => cases h

/-- A worker takes a submission over that nobody holds. -/
theorem Parties.take {w : World} {issued : List String} {ps : List Party} {i : Nat} {t : Party}
    (h : Parties w rest issued ps) (hi : ps[i]? = some t) (ht : t.holder = none) {id : String}
    {st : Stage} (hst : st ≠ .done) (hexp : st.expects = none)
    (hsound : (Party.run id st).Sound) (hlive : isLive (w.status id) = true)
    (hfree : ∀ u ∈ ps, u.holder ≠ some id) :
    ∃ rest, Parties w rest issued (ps.set i (.run id st)) := by
  have hone : rest id = 1 := by
    have hheld := h.held.held id
    rw [weigh_eq_zero _ (fun u hu => by simp [tenancy, hfree u hu]),
      show tenancy.live (w.status id) = true from hlive] at hheld
    simpa using hheld
  have hrun : (Party.run id st).holder = some id := if_neg hst
  refine ⟨fun y => if y = id then 0 else rest y, h.swap hi (fun y => ?_) (fun y v he => ?_) rfl
    hsound⟩
  · by_cases hy : y = id
    · simp [hy, hone, tenancy, ht, hrun]
    · simp [hy, tenancy, ht, hrun, Ne.symm hy]
  · simp only [Party.expects, hexp] at he
    cases he

/-- **A step of a worker**, which reads an unattended submission if it
reads one: it changes the records as a party may, and the parties still
add up. -/
theorem workerStep_parties {w w' : World} {issued : List String} {ps : List Party}
    {st st' : WStage} (h : Parties w rest issued ps) (hi : ps[i]? = some (workerParty st))
    (hstep : WorkerStep w st w' st')
    (hread : ∀ id, st = .claimed id →
      w.status id ≠ some .deferred ∧ ∀ u ∈ ps, u.holder ≠ some id) :
    ∃ k, (Kept k w (workerParty st) w' (workerParty st') ∨
        w'.store.submissions = w.store.submissions) ∧
      ∃ rest, Parties w' rest issued (ps.set i (workerParty st')) := by
  have still (hsame : w'.store.submissions = w.store.submissions)
      (hparty : (workerParty st').holder = (workerParty st).holder)
      (hexp : ∀ y v, (workerParty st').expects = some (y, v) → w.status y = v)
      (hsound : (workerParty st').Sound) :
      ∃ k, (Kept k w (workerParty st) w' (workerParty st') ∨
        w'.store.submissions = w.store.submissions) ∧
      ∃ rest, Parties w' rest issued (ps.set i (workerParty st')) := by
    have hpass (y : String) : (workerParty st).passes y (workerParty st') = false := by
      cases st <;> rfl
    have hdraws : (workerParty st').draws = none := by cases st' <;> rfl
    refine ⟨"", .inr hsame, rest, h.move hi (k := "") (.still "" hsame (fun y => ?_) hexp
      (fun y hy => by rw [hdraws] at hy; cases hy) hsound) (fun y => by rw [hpass]; rfl)⟩
    rw [hpass]
    simp [tenancy, hparty]
  have moved {k : String} (hk : Kept k w (workerParty st) w' (workerParty st')) :
      ∃ k, (Kept k w (workerParty st) w' (workerParty st') ∨
        w'.store.submissions = w.store.submissions) ∧
      ∃ rest, Parties w' rest issued (ps.set i (workerParty st')) :=
    ⟨k, .inl hk, rest, h.move hi hk fun y => by cases st <;> rfl⟩
  have hfree {id : String} (hst : st = .claimed id) {v : SubmissionStatus}
      (hv : w.status id = some v) (hopen : v ≠ .completed ∧ v ≠ .failed) :
      isLive (w.status id) = true := by
    have hne := (hread id hst).1
    rw [hv] at hne ⊢
    cases v <;> simp_all [isLive]
  cases hstep with
  | quiet hadm hsame =>
    exact still hsame rfl (h.held.expected i _ hi) (h.sound _ (List.mem_of_getElem? hi))
  | poll hrows | claim hrow hrows => exact still rfl rfl (fun y v he => by cases he) trivial
  | skip hs => exact still rfl rfl (fun y v he => by cases he) (fun c hc => by cases hc)
  | exceed hs hopen | enter hs hopen =>
    exact ⟨"", .inr rfl, h.take hi rfl (by simp) rfl (fun c hc => by cases hc)
      (hfree rfl hs hopen) (hread _ rfl).2⟩
  | fail hstatus =>
    rename_i sub
    refine moved (h.run hi (.written sub ⟨rfl, rfl, rfl⟩ rfl ?_))
    rw [hstatus]
    exact .fail _
  | run hst hstage =>
    rename_i id st st'
    have hparty : workerParty (WStage.inside id st') = .run id st' := by
      unfold WStage.inside
      split
      · rename_i hdone
        rw [hdone]
        rfl
      · rfl
    refine moved (k := id) ?_
    rw [hparty]
    exact h.run hi hstage
  | complete => exact still rfl rfl (fun y v he => by cases he) trivial

end Step

/-! ## Steps of the system -/

/-- What a step of the system means for the submissions. -/
structure QueueKept (a : QueueAction) (s s' : QueueState) : Prop where
  inv : QueueInv s'
  change : ∀ id, StatusChange (s.store.status id) (s'.store.status id)
  claims : ∀ id, s.store.status id = some .deferred → s'.store.status id = some .running →
    ∃ i ch g, a = .handler i ch ∧ s.threads[i]? = some (.handler g (.resumeClaim id))
  resolves : ∀ id, s.store.status id = some .completed ∨ s.store.status id = some .failed →
    s'.store.submissions.get? id = s.store.submissions.get? id ∨
      ∃ i ch g h c, a = .handler i ch ∧ s.threads[i]? = some (.handler g h) ∧
        h.stage = .adjudicating id c

section System

variable {s s' : QueueState} {a : QueueAction}

theorem QueueKept.of_same (hinv : QueueInv s')
    (hsame : s'.store.submissions = s.store.submissions) : QueueKept a s s' := by
  have hval (id : String) : s'.store.status id = s.store.status id :=
    MemoryStore.status_of_submissions hsame id
  refine ⟨hinv, fun id => ?_, fun id hd hr => ?_, fun id _ => .inl (by rw [hsame])⟩
  · rw [hval]
    exact .same _
  · rw [hval, hd] at hr
    cases hr

theorem QueueKept.of_kept (hinv : QueueInv s') {k : String} {t t' : Party}
    (hk : Kept k s.world t s'.world t')
    (hlive : ∀ id, t.holder = some id → isLive (s.store.status id) = true)
    (hclaim : t = .handler (.claiming k) →
      ∃ i ch g, a = .handler i ch ∧ s.threads[i]? = some (.handler g (.resumeClaim k)))
    (hresolve : ∀ c, t = .handler (.adjudicating k c) →
      ∃ i ch g h c, a = .handler i ch ∧ s.threads[i]? = some (.handler g h) ∧
        h.stage = .adjudicating k c) : QueueKept a s s' := by
  refine ⟨hinv, fun id => ?_, fun id hd hr => ?_, fun id hfinal => ?_⟩
  · by_cases hid : id = k
    · exact hid ▸ hk.change
    · rw [show s'.store.status id = s.store.status id from hk.status_others hid]
      exact .same _
  · by_cases hid : id = k
    · subst hid
      exact hclaim (hk.claims hd hr)
    · cases hd.symm.trans ((hk.status_others hid).symm.trans hr)
  · by_cases hid : id = k
    · subst hid
      by_cases hsame : s'.world.record id = s.world.record id
      · exact .inl hsame
      · right
        rcases hk.writes hsame with hheld | hfree | ⟨c, hc⟩
        · have := hlive id hheld
          rcases hfinal with hf | hf <;> rw [hf] at this <;> cases this
        · have hfree' : tenancy.free (s.store.status id) = true := hfree
          rcases hfinal with hf | hf <;> rw [hf] at hfree' <;> cases hfree'
        · exact hresolve c hc
    · exact .inl (hk.others id hid)

/-- No two parties hold one submission. -/
theorem Parties.unique {w : World} {rest : String → Nat} {issued : List String} {ps : List Party}
    (h : Parties w rest issued ps) {i j : Nat} {t u : Party} (hi : ps[i]? = some t)
    (hj : ps[j]? = some u) {id : String} (ht : t.holder = some id) (hu : u.holder = some id) :
    i = j := by
  by_contra hne
  have htwo := add_le_weigh (tenancy.holds id) hi hj hne
  have hheld := h.held.held id
  have hone := Bool.toNat_le (tenancy.live (w.status id))
  simp only [tenancy, ht, hu, decide_true, Bool.toNat_true] at htwo hheld hone
  omega

/-- A create handler that has not committed is the only one to hold its
submission. -/
theorem Parties.precommit_unique {w : World} {rest : String → Nat} {issued : List String}
    {ps : List Party} (h : Parties w rest issued ps) {i j : Nat} {t : Party} (hi : ps[i]? = some t)
    {id : String} (ht : t.holder = some id) {st : HStage} (hj : ps[j]? = some (.handler st))
    (hst : precommit st = some id) : j = i := by
  cases st with
  | pending k =>
    cases hst
    have hlive := h.live_of_holder hi ht
    rw [h.none_of_draws hj rfl] at hlive
    cases hlive
  | admitting k | abandoning k => exact h.unique hj hi hst ht
  | _ => cases hst

/-- A stored submission's id was drawn. -/
theorem Parties.issued_of_status {w : World} {rest : String → Nat} {issued : List String}
    {ps : List Party} (h : Parties w rest issued ps) {id : String}
    (hid : (w.status id).isSome = true) : id ∈ issued := by
  have hdrawn := h.drawn id
  by_contra hne
  simp only [hid, hne, Bool.toNat_true, decide_false, Bool.toNat_false] at hdrawn
  omega

theorem handlerMove_kept (h : QueueInv s) {i g : Nat} {ch : HandlerChoice} {hd hd' : Handler}
    {p p' : QueuePool} {w w' : World} (hi : s.threads[i]? = some (.handler g hd))
    (hw : w.store = s.store) (hw' : w'.store = s'.store)
    (hthreads : s'.threads = s.threads.set i (.handler g hd')) (hissued : s'.issued = s.issued)
    (hformed : ∀ t ∈ s'.threads, t.Formed)
    (hstep : HandlerStep queueDispatcher p w hd.stage p' w' hd'.stage) :
    QueueKept (.handler i ch) s s' := by
  obtain ⟨rest, hp⟩ := h.parties
  have hpi := queueParty_getElem? hi
  have hpw : Parties w rest s.issued (s.threads.map QueueThread.party) :=
    hp.of_submissions (congrArg (·.submissions) hw)
  obtain ⟨k, hk⟩ := hpw.handler queueDispatcher_keeps hpi hstep
  have hqueued (id : String) (hq : s'.Queued id) :
      id ∈ s'.issued ∧ ∀ t ∈ s'.threads, precommit t.serves ≠ some id := by
    rw [hissued, hthreads]
    have hcase : s.Queued id ∨
        ((hd.stage = .admitting id ∨ hd.stage = .resuming id) ∧ hd'.stage = .idle) := by
      rcases hq with hrow | ⟨t, ht, hwork⟩
      · rw [← hw'] at hrow
        rcases handlerStep_rows hstep with hsame | ⟨y, hst, hidle, hadd⟩ | ⟨y, -, -, hdel⟩
        · exact .inl (.inl (hw ▸ hsame id ▸ hrow))
        · rw [hadd id, Bool.or_eq_true, decide_eq_true_eq] at hrow
          rcases hrow with rfl | hrow
          · exact .inr ⟨hst, hidle⟩
          · exact .inl (.inl (hw ▸ hrow))
        · rw [hdel id, Bool.and_eq_true] at hrow
          exact .inl (.inl (hw ▸ hrow.2))
      · rw [hthreads] at ht
        rcases mem_set_cases ht with rfl | hold
        · cases hwork
        · exact .inl (.inr ⟨t, hold, hwork⟩)
    rcases hcase with hold | ⟨hst, hidle⟩
    · obtain ⟨hid, hpre⟩ := h.queued id hold
      refine ⟨hid, fun t ht => ?_⟩
      rcases mem_set_cases ht with rfl | hmem
      · exact fun hc => hpre _ (List.mem_of_getElem? hi) (HandlerStep.precommit hstep hc)
      · exact hpre t hmem
    · -- the row is new: nobody else can be about to admit the submission
      have hholder : (QueueThread.handler g hd).party.holder = some id := by
        rcases hst with hst | hst <;> simp [QueueThread.party, Party.holder, HStage.holder, hst]
      have hlive := hp.live_of_holder hpi hholder
      have hsome : (s.world.status id).isSome = true := by
        rcases isLive_cases hlive with hv | hv <;> rw [hv] <;> rfl
      refine ⟨hp.issued_of_status hsome, fun t ht hpre => ?_⟩
      obtain ⟨j, hj⟩ := List.mem_iff_getElem?.mp ht
      rcases getElem?_set_cases hj with ⟨-, rfl⟩ | ⟨hne, hold⟩
      · simp [QueueThread.serves, hidle, precommit] at hpre
      · cases t with
        | handler g' hu =>
          exact hne (hp.precommit_unique hpi hholder (queueParty_getElem? hold) hpre)
        | worker => cases hpre
        | ended => cases hpre
  have hinv : QueueInv s' := by
    refine ⟨hformed, ⟨fun y => rest y +
      (Party.passes y (.handler hd.stage) (.handler hd'.stage)).toNat, ?_⟩, hqueued⟩
    rw [hissued, hthreads, List.map_set]
    exact (hpw.move hpi hk fun _ => rfl).of_submissions (congrArg (·.submissions) hw'.symm)
  refine .of_kept hinv (hk.of_submissions (congrArg (·.submissions) hw.symm)
    (congrArg (·.submissions) hw'.symm)) (fun id hid => hp.live_of_holder hpi hid) ?_ ?_
  · intro hclaim
    refine ⟨i, ch, g, rfl, ?_⟩
    rw [hi, handler_of_claiming (Party.handler.inj hclaim)]
  · exact fun c hc => ⟨i, ch, g, hd, c, rfl, hi, Party.handler.inj hc⟩

theorem workerMove_kept (h : QueueInv s) {i g n : Nat} {env : RunEnv} {ch : Choice}
    (hord : (QueueAction.worker i env ch).Orderly s) {pc pc' : WorkerPc} {w w' : World}
    (hi : s.threads[i]? = some (.worker g n pc)) (hw : w.store = s.store)
    (hw' : w'.store = s'.store) (hthreads : s'.threads = s.threads.set i (.worker g n pc'))
    (hissued : s'.issued = s.issued) (hformed : ∀ t ∈ s'.threads, t.Formed)
    (hstep : WorkerStep w pc.stage w' pc'.stage) : QueueKept (.worker i env ch) s s' := by
  obtain ⟨rest, hp⟩ := h.parties
  have hpi := queueParty_getElem? hi
  have hread (id : String) (hst : pc.stage = .claimed id) :
      w.status id ≠ some .deferred ∧
        ∀ u ∈ s.threads.map QueueThread.party, u.holder ≠ some id := by
    obtain ⟨attempts, rfl⟩ := WorkerPc.of_claimed hst
    obtain ⟨hne, hfree⟩ := hord id (by simp [QueueAction.reads, hi])
    refine ⟨by rwa [World.status, hw], fun u hu hheld => ?_⟩
    obtain ⟨t, ht, rfl⟩ := List.mem_map.mp hu
    rcases QueueThread.holder_cases hheld with hpre | hatt
    · exact (h.queued id (.inr ⟨_, List.mem_of_getElem? hi, rfl⟩)).2 t ht hpre
    · cases hatt.symm.trans (hfree t ht)
  obtain ⟨k, hk, rest', hp'⟩ :=
    workerStep_parties (hp.of_submissions (congrArg (·.submissions) hw)) hpi hstep hread
  have hinv : QueueInv s' := by
    refine ⟨hformed, ⟨rest', ?_⟩, fun id hq => ?_⟩
    · rw [hissued, hthreads, List.map_set]
      exact hp'.of_submissions (congrArg (·.submissions) hw'.symm)
    · have hold : s.Queued id := by
        rcases hq with hrow | ⟨t, ht, hwork⟩
        · exact .inl (hw ▸ hstep.rows.1 id (hw' ▸ hrow))
        · rw [hthreads] at ht
          rcases mem_set_cases ht with rfl | hmem
          · rcases hstep.rows.2 id hwork with hst | hrow
            · exact .inr ⟨_, List.mem_of_getElem? hi, hst⟩
            · exact .inl (hw ▸ hrow)
          · exact .inr ⟨t, hmem, hwork⟩
      obtain ⟨hid, hpre⟩ := h.queued id hold
      rw [hissued, hthreads]
      refine ⟨hid, fun t ht => ?_⟩
      rcases mem_set_cases ht with rfl | hmem
      · exact fun hc => by cases hc
      · exact hpre t hmem
  rcases hk with hk | hsame
  · refine .of_kept hinv (hk.of_submissions (congrArg (·.submissions) hw.symm)
    (congrArg (·.submissions) hw'.symm)) (fun id hid => hp.live_of_holder hpi hid) ?_ ?_
    · exact fun hc => absurd hc (workerParty_ne pc.stage _)
    · exact fun c hc => absurd hc (workerParty_ne pc.stage _)
  · exact .of_same hinv (by rw [← hw, ← hw', hsame])

/-- **Every orderly step keeps the invariant and changes records
legally.** -/
theorem queueMove_kept (h : QueueInv s) (hord : a.Orderly s) (hm : QueueMove s s' a) :
    QueueKept a s s' := by
  have hformed := hm.formed h.formed
  obtain ⟨rest, hp⟩ := h.parties
  cases hm with
  | spawn hstore hthreads hissued hnew =>
    rename_i t
    obtain ⟨hholder, hexp, hsound, hdraws⟩ := hnew.party
    refine .of_same ⟨hformed, ⟨rest, ?_⟩, fun id hq => ?_⟩ (by rw [hstore])
    · rw [hthreads, List.map_append]
      refine Parties.of_submissions ?_ (w := s.world) (congrArg (·.submissions) hstore)
      exact hp.spawn (fun y => by simp [tenancy, hholder]) hexp hsound hissued hdraws
    · rw [hthreads]
      have hold : s.Queued id := by
        rcases hq with hrow | ⟨u, hu, hwork⟩
        · exact .inl (hstore ▸ hrow)
        · rw [hthreads] at hu
          rcases List.mem_append.mp hu with hmem | hsing
          · exact .inr ⟨u, hmem, hwork⟩
          · rw [List.mem_singleton.mp hsing, hnew.work] at hwork
            cases hwork
      obtain ⟨hid, hpre⟩ := h.queued id hold
      refine ⟨hissued id hid, fun u hu => ?_⟩
      rcases List.mem_append.mp hu with hmem | hsing
      · exact hpre u hmem
      · rw [List.mem_singleton.mp hsing]
        rcases hnew.serves with hs | ⟨y, hs⟩ | ⟨y, hs, hy, -⟩ <;> rw [hs]
        · exact fun hc => by cases hc
        · exact fun hc => by cases hc
        · rintro ⟨⟩
          exact hy hid
  | handler hi hw hw' hthreads hissued hfresh hcall hstep =>
    exact handlerMove_kept h hi hw hw' hthreads hissued hformed hstep
  | worker hi hw hw' hthreads hissued hpc hstep =>
    exact workerMove_kept h hord hi hw hw' hthreads hissued hformed hstep
  | rows hsub hrows hthreads hissued =>
    refine .of_same ⟨hformed, ⟨rest, ?_⟩, fun id hq => ?_⟩ hsub
    · rw [hthreads, hissued]
      exact hp.of_submissions hsub
    · rw [hthreads, hissued]
      refine h.queued id ?_
      rw [QueueState.Queued, hrows, hthreads] at hq
      exact hq
  | crash hstore hthreads hissued =>
    rename_i i
    have hqueued (id : String) (hq : s'.Queued id) :
        id ∈ s'.issued ∧ ∀ t ∈ s'.threads, precommit t.serves ≠ some id := by
      rw [QueueState.Queued, hstore, hthreads] at hq
      rw [hissued, hthreads]
      have hold : s.Queued id := by
        refine hq.imp_right fun hcarried => ?_
        obtain ⟨u, hu, hwork⟩ := hcarried
        rcases mem_set_cases hu with rfl | hmem
        · cases hwork
        · exact ⟨u, hmem, hwork⟩
      obtain ⟨hid, hpre⟩ := h.queued id hold
      refine ⟨hid, fun u hu => ?_⟩
      rcases mem_set_cases hu with rfl | hmem
      · exact fun hc => by cases hc
      · exact hpre u hmem
    have hparties : ∃ rest, Parties s.world rest s.issued
        ((s.threads.map QueueThread.party).set i .bystander) := by
      cases hi : s.threads[i]? with
      | none =>
        refine ⟨rest, ?_⟩
        rwa [List.set_eq_of_length_le (by simpa using hi)]
      | some t =>
        -- whatever the thread held is left to nobody
        exact ⟨fun y => rest y + tenancy.holds y t.party, hp.swap (queueParty_getElem? hi)
          (fun y => rfl) (fun y v he => by cases he) rfl trivial⟩
    obtain ⟨rest', hp'⟩ := hparties
    refine .of_same ⟨hformed, ⟨rest', ?_⟩, hqueued⟩ (by rw [hstore])
    rw [hthreads, hissued, List.map_set]
    exact hp'.of_submissions (congrArg (·.submissions) hstore)

end System

/-! ## Runs -/

section Given

variable [GoStd] {o : Orchestrator} {s : QueueState}

theorem queueInv_init (h : (queueSys o).init s) : QueueInv s := by
  obtain ⟨-, hthreads, hissued⟩ := h
  refine ⟨fun t ht => ?_, ⟨fun id => (isLive (s.store.status id)).toNat, ?_⟩, fun id hq => ?_⟩
  · rw [hthreads] at ht
    cases ht
  · rw [hthreads]
    exact .nil (fun _ => rfl) (fun id hid => hissued id (.inl hid))
  · rw [QueueState.Queued, hthreads] at hq
    rw [hthreads]
    rcases hq with hrow | ⟨t, ht, -⟩
    · exact ⟨hissued id (.inr hrow), fun t ht => by cases ht⟩
    · cases ht

theorem queueStep_kept (h : QueueInv s) {a : QueueAction} (hok : a.StoreOk) (hord : a.Orderly s)
    {s' : QueueState} (hstep : queueStep o a s = some s') : QueueKept a s s' :=
  queueMove_kept h hord (queueStep_move hok h.formed hstep)

theorem queueInv_reach (h : (queueSys o).Reach (fun s a => a.StoreOk ∧ a.Orderly s) s) :
    QueueInv s :=
  h.invariant (fun _ => queueInv_init)
    (fun _ _ _ hinv hok hstep => (queueStep_kept hinv hok.1 hok.2 hstep).inv)

/-- **Final statuses in queue mode.** In a run in which every worker that
reads its submission in `runClaimed` finds it unattended, a completed or
failed status never changes again, the record of such a submission is
written by `Adjudicate` only, and a deferred submission becomes running
only where a handler calls `ClaimResume` for it. -/
theorem queue_final_kept (h : (queueSys o).Reach (fun s a => a.StoreOk ∧ a.Orderly s) s) :
    (∀ s', Relation.ReflTransGen ((queueSys o).Next fun s a => a.StoreOk ∧ a.Orderly s) s s' →
      ∀ id, s.store.status id = some .completed ∨ s.store.status id = some .failed →
        s'.store.status id = s.store.status id) ∧
    ∀ a s', a.StoreOk → a.Orderly s → (queueSys o).step a s = some s' → ∀ id,
      (s.store.status id = some .completed ∨ s.store.status id = some .failed →
        s'.store.submissions.get? id = s.store.submissions.get? id ∨
          ∃ i ch g h c, a = .handler i ch ∧ s.threads[i]? = some (.handler g h) ∧
            h.stage = .adjudicating id c) ∧
      (s.store.status id = some .deferred → s'.store.status id = some .running →
        ∃ i ch g, a = .handler i ch ∧ s.threads[i]? = some (.handler g (.resumeClaim id))) := by
  refine ⟨fun s' hrun id hfinal => ?_, fun a s' hok hord hstep id => ?_⟩
  · -- along the run the invariant goes with the status
    have hboth : QueueInv s' ∧ s'.store.status id = s.store.status id := by
      induction hrun with
      | refl => exact ⟨queueInv_reach h, rfl⟩
      | tail _ hnext ih =>
        obtain ⟨hinv, hsame⟩ := ih
        obtain ⟨a, ⟨hok, hord⟩, hstep⟩ := hnext
        have hkept := queueStep_kept hinv hok hord hstep
        refine ⟨hkept.inv, ?_⟩
        rw [(hkept.change id).final_kept (hsame ▸ hfinal), hsame]
    exact hboth.2
  · have hkept := queueStep_kept (queueInv_reach h) hok hord hstep
    exact ⟨hkept.resolves id, hkept.claims id⟩

end Given

/-- Two processes, one worker each; a submission without capabilities is
admitted, and the first worker has marked it running. -/
def runningOnFirst : List QueueAction :=
  let env := RunEnv.plain "a" (.error "")
  [.boot {} "h" "", .boot {} "k" "",
   .create 0 { artifact := { purl := some "pkg:npm/a@1" } } "h" "sub_a" 0,
   .handler 0 {}, .handler 0 {}, .handler 0 {}, .start 0 0, .start 1 0,
   .worker 1 env {}, .worker 1 env { order := ["sub_a"] }, .worker 1 env {},
   .worker 1 env {}, .worker 1 env {}, .worker 1 env {}]

/-- The first worker goes on until it has completed the submission. -/
def completedByFirst : List QueueAction :=
  let env := RunEnv.plain "a" (.error "")
  [.worker 1 env {}, .worker 1 env {}, .worker 1 env {}, .worker 1 env {}]

def emptyQueueState : QueueState := { store := {}, gateways := [], threads := [], issued := [] }

theorem emptyQueueState_reach {ok : QueueState → QueueAction → Prop} :
    (@queueSys GoStd.plain (@Orchestrator.plain GoStd.plain)).Reach ok emptyQueueState :=
  Sys.Reach.init ⟨rfl, rfl, fun id h => by rcases h with h | h <;> cases h⟩

/-- The worker that completed the submission goes on to complete its job,
and the status stays. -/
theorem queue_final_kept_completing :
    ∃ s s', (@queueSys GoStd.plain (@Orchestrator.plain GoStd.plain)).Reach
        (fun s a => a.StoreOk ∧ a.Orderly s) s ∧
      (@queueSys GoStd.plain (@Orchestrator.plain GoStd.plain)).step
        (.worker 1 (RunEnv.plain "a" (.error "")) {}) s = some s' ∧
      s.store.status "sub_a" = some .completed ∧
      s'.store.submissions.get? "sub_a" = s.store.submissions.get? "sub_a" := by
  let _ := GoStd.plain
  have hrun : ((queueSys Orchestrator.plain).run (fun s a => a.StoreOk ∧ a.Orderly s)
      (runningOnFirst ++ completedByFirst) emptyQueueState).map (fun s =>
        (s.store.status "sub_a",
          decide ((QueueAction.worker 1 (RunEnv.plain "a" (.error "")) {}).Orderly s),
          (queueStep Orchestrator.plain (.worker 1 (RunEnv.plain "a" (.error "")) {}) s).isSome)) =
      some (some .completed, true, true) := by
    decide +kernel
  obtain ⟨s, hreach, heq⟩ := emptyQueueState_reach.of_run_map hrun
  simp only [Prod.mk.injEq, decide_eq_true_eq] at heq
  obtain ⟨hcompleted, hord, hnext⟩ := heq
  obtain ⟨s', hs'⟩ := Option.isSome_iff_exists.mp hnext
  have hkept := ((queue_final_kept hreach).2 (.worker 1 (RunEnv.plain "a" (.error "")) {}) s' rfl
    hord hs' "sub_a").1 (.inl hcompleted)
  refine ⟨s, s', hreach, hs', hcompleted, hkept.resolve_right ?_⟩
  rintro ⟨i, ch, g, hd, c, hc, -⟩
  cases hc

/-- The lease of the first worker ends while it runs; the second worker
claims the job, passes the check of `runClaimed` and reads the record. The
first worker completes the submission, and the second marks it running
again. -/
theorem completed_submission_runs_again :
    ∃ s s', (@queueSys GoStd.plain (@Orchestrator.plain GoStd.plain)).Reach
        (fun _ a => a.StoreOk) s ∧
      (@queueSys GoStd.plain (@Orchestrator.plain GoStd.plain)).step
        (.worker 2 (RunEnv.plain "b" (.error "")) {}) s = some s' ∧
      s.store.status "sub_a" = some .completed ∧ s'.store.status "sub_a" = some .running := by
  let _ := GoStd.plain
  let env := RunEnv.plain "b" (.error "")
  let second : List QueueAction :=
    [.worker 2 env {}, .worker 2 env { order := ["sub_a"], now := defaultLease + 1 },
     .worker 2 env {}, .worker 2 env {}, .worker 2 env {}]
  have hrun : ((queueSys Orchestrator.plain).run (fun _ a => a.StoreOk)
      (runningOnFirst ++ second ++ completedByFirst) emptyQueueState).map (fun s =>
        (s.store.status "sub_a", (queueStep Orchestrator.plain (.worker 2 env {}) s).map fun s' =>
          s'.store.status "sub_a")) =
      some (some .completed, some (some .running)) := by
    decide +kernel
  obtain ⟨s, hreach, heq⟩ := emptyQueueState_reach.of_run_map hrun
  simp only [Prod.mk.injEq, Option.map_eq_some_iff] at heq
  obtain ⟨hcompleted, s', hs', hrunning⟩ := heq
  exact ⟨s, s', hreach, hs', hcompleted, hrunning⟩

end Scintx.System
