/-
Scintx.System.Identity — a submission stays what it was submitted as.

Handlers and runs write whole records back that they have read some time
before, and nothing orders their writes. A status, a result list or a
decision may be lost that way. The identity of a submission is not: all
copies of it, the stored one and those in the hands of the threads, are
equal in the fields that were submitted (`local_identity_fixed`,
`queue_identity_fixed`). An id is drawn once, so a record that was
abandoned is not taken up by another request.

No store call is assumed to succeed, and in queue mode a thread may crash
between any two of its calls.
-/
import Scintx.Orchestrator.Copies
import Scintx.Orchestrator.Failures
import Scintx.System.LocalTheorems
import Scintx.System.Queue

namespace Scintx.System

open Scintx.Lib Scintx.Api Scintx.Store Scintx.Orchestrator Scintx.Workers Scintx.Server

/-! ## Handlers -/

/-- The record a handler holds. -/
def Handler.copy : Handler → Option Submission
  | .createReserve _ _ sub | .createPut _ _ _ sub | .createCommit _ _ sub => some sub
  | .adjudicatePrior sub _ _ | .adjudicatePutDecision sub _ _ _
  | .adjudicatePutSubmission sub _ _ _ | .adjudicateEmit sub _ _ _ => some sub
  | _ => none

theorem localDispatcher_writesJobs : WritesJobs localDispatcher :=
  fun _ _ _ _ w => ⟨w.store.jobs, rfl⟩

theorem queueDispatcher_writesJobs : WritesJobs queueDispatcher :=
  fun _ _ _ _ _ => ⟨_, rfl⟩

section Calls

variable {s s' : MemoryStore} {held : Option Submission}

theorem copies_bindSubmission (s : MemoryStore) (key hash : String) (sub : Submission) :
    CopiesFrom s (some sub) (s.bindSubmission key hash sub) (some (Stored.of sub).copy) := by
  refine .put (MemoryStore.bindSubmission_submissions s key hash sub) ?_ (.refl sub) fun x hx => ?_
  · unfold MemoryStore.bindSubmission
    split <;> rfl
  · rw [Stored.copy_eq] at hx
    exact Option.some.inj hx ▸ .stored sub

theorem copies_abandonSubmission (s : MemoryStore) (id key : String) :
    CopiesFrom s held (s.abandonSubmission id key).2 none := by
  unfold MemoryStore.abandonSubmission
  split
  · exact .drop rfl rfl
  · split
    · exact .drop rfl rfl
    · refine ⟨rfl, fun sub hcopy => ?_⟩
      rcases hcopy with h | ⟨y, row, hrow, rfl⟩
      · cases h
      · rw [Table.get?_erase] at hrow
        split at hrow
        · cases hrow
        · exact ⟨row.val, .inr ⟨y, row, hrow, rfl⟩, .refl _⟩

theorem copies_claimResume {id : String} {sub : Submission}
    (h : s.claimResume id = (.ok sub, s')) : CopiesFrom s held s' none := by
  unfold MemoryStore.claimResume at h
  split at h
  · cases h
  · rename_i row hrow
    split at h <;> cases h
    exact .write (.inr ⟨id, row, hrow, rfl⟩) rfl rfl ⟨rfl, rfl⟩ fun _ hx => by cases hx

theorem copies_releaseResume (s : MemoryStore) (id : String) :
    CopiesFrom s held (s.releaseResume id) none := by
  unfold MemoryStore.releaseResume
  split
  · exact .drop rfl rfl
  · rename_i row hrow
    split
    · exact .drop rfl rfl
    · exact .write (.inr ⟨id, row, hrow, rfl⟩) rfl rfl ⟨rfl, rfl⟩ fun _ hx => by cases hx

/-- **A handler writes back what it has read, or what it was sent.** -/
theorem Handler.step_copies {σ : Type} {d : Dispatcher σ} (hd : WritesJobs d) {ch : HandlerChoice}
    {p p' : σ} {w w' : World} {h h' : Handler} (hs : h.step d ch p w = some (p', w', h')) :
    CopiesFrom w.store (Handler.copy h) w'.store (Handler.copy h') := by
  cases Handler.step_move hs with
  | commitFailed key hcommit | committed key hcommit | resumeFailed hcommit | resumed hcommit =>
    obtain ⟨jobs, rfl⟩ := hd.commit hcommit
    exact .drop rfl rfl
  | reserved => exact .hold rfl rfl (.refl _)
  | created tok hash sub => exact copies_bindSubmission w.store _ hash sub
  | abandoned tok key id answer => exact copies_abandonSubmission w.store id key
  | claimed hclaim => exact copies_claimResume hclaim
  | unmarked id e => exact copies_releaseResume w.store id
  | adjudicable hreq hget hprior => exact .read hget (.refl _)
  | resolved => exact .hold rfl rfl (.refl _)
  | filed => exact .hold rfl rfl ⟨rfl, rfl⟩
  | overruled sub =>
    exact .put rfl rfl (.refl sub) fun _ hx => Option.some.inj hx ▸ .refl _
  | told => exact .drop (World.emit_submissions ..) (World.emit_artifacts ..)
  | _ => exact .drop rfl rfl

end Calls

/-! ## Threads over a store -/

/-- What holds of the identity of every copy, stored or held. -/
structure AllCopies {θ : Type} (P : String → SubmissionIdentity → Prop)
    (copy : θ → Option Submission) (store : MemoryStore) (threads : List θ) : Prop where
  stored : ∀ id row, store.submissions.get? id = some row → P row.val.id (identityOf row.val)
  held : ∀ t ∈ threads, ∀ sub, copy t = some sub → P sub.id (identityOf sub)

section Threads

variable {θ : Type} {P : String → SubmissionIdentity → Prop} {copy : θ → Option Submission}
  {store store' : MemoryStore} {threads : List θ}

theorem AllCopies.spawn (h : AllCopies P copy store threads) {t : θ}
    (ht : ∀ sub, copy t = some sub → P sub.id (identityOf sub)) :
    AllCopies P copy store (threads ++ [t]) where
  stored := h.stored
  held u hu := by
    rcases List.mem_append.mp hu with hold | hnew
    · exact h.held u hold
    · rw [List.mem_singleton.mp hnew]
      exact ht

/-- One thread makes a call. -/
theorem AllCopies.moved (h : AllCopies P copy store threads) {i : Nat} {t t' : θ}
    (hi : threads[i]? = some t) (hcall : CopiesFrom store (copy t) store' (copy t')) :
    AllCopies P copy store' (threads.set i t') := by
  have hbefore (sub : Submission) (hcopy : IsCopy store (copy t) sub) :
      P sub.id (identityOf sub) := by
    rcases hcopy with hheld | ⟨id, row, hrow, rfl⟩
    · exact h.held t (List.mem_of_getElem? hi) sub hheld
    · exact h.stored id row hrow
  have hafter := hcall.all hbefore
  refine ⟨fun id row hrow => hafter _ (.inr ⟨id, row, hrow, rfl⟩), fun u hu sub hsub => ?_⟩
  rcases mem_set_cases hu with rfl | hold
  · exact hafter sub (.inl hsub)
  · exact h.held u hold sub hsub

/-- A thread is gone. -/
theorem AllCopies.lost (h : AllCopies P copy store threads) (i : Nat) {t : θ}
    (hnone : copy t = none) : AllCopies P copy store (threads.set i t) where
  stored := h.stored
  held u hu sub hsub := by
    rcases mem_set_cases hu with rfl | hold
    · cases hnone.symm.trans hsub
    · exact h.held u hold sub hsub

theorem AllCopies.imp {Q : String → SubmissionIdentity → Prop} (h : AllCopies P copy store threads)
    (hPQ : ∀ id x, P id x → Q id x) : AllCopies Q copy store threads :=
  ⟨fun id row hrow => hPQ _ _ (h.stored id row hrow),
    fun t ht sub hsub => hPQ _ _ (h.held t ht sub hsub)⟩

end Threads

/-! ## One identity an id -/

/-- The id was drawn, and the copy is of the submission it was drawn
for. -/
def Known (F : String → SubmissionIdentity) (issued : List String) (id : String)
    (x : SubmissionIdentity) : Prop :=
  id ∈ issued ∧ x = F id

/-- What was known is known still. -/
def Extends (issued : List String) (F : String → SubmissionIdentity) (issued' : List String)
    (F' : String → SubmissionIdentity) : Prop :=
  ∀ id ∈ issued, id ∈ issued' ∧ F' id = F id

theorem Extends.refl (issued : List String) (F : String → SubmissionIdentity) :
    Extends issued F issued F := fun _ hid => ⟨hid, rfl⟩

section Known

variable {θ : Type} {copy : θ → Option Submission} {store store' : MemoryStore}
  {threads threads' : List θ} {F : String → SubmissionIdentity} {issued : List String}

/-- A new id gets an identity of its own. -/
theorem AllCopies.create (h : AllCopies (Known F issued) copy store threads) {id : String}
    (hnew : id ∉ issued) {t : θ} {sub : Submission} (hcopy : copy t = some sub)
    (hid : sub.id = id) :
    ∃ F', AllCopies (Known F' (id :: issued)) copy store (threads ++ [t]) ∧
      Extends issued F (id :: issued) F' := by
  have hold (y : String) (hy : y ∈ issued) : Function.update F id (identityOf sub) y = F y :=
    Function.update_of_ne (fun (heq : y = id) => hnew (heq ▸ hy)) _ _
  refine ⟨Function.update F id (identityOf sub), ?_, fun y hy =>
    ⟨List.mem_cons_of_mem id hy, hold y hy⟩⟩
  refine (h.imp fun y x hx => ⟨List.mem_cons_of_mem id hx.1, hx.2.trans (hold y hx.1).symm⟩).spawn
    fun x hx => ?_
  obtain rfl := Option.some.inj (hcopy.symm.trans hx)
  exact ⟨hid ▸ List.mem_cons_self, by rw [hid, Function.update_self]⟩

/-- Many steps, of any system whose steps keep copies known. -/
theorem AllCopies.later {σ : Type} {next : σ → σ → Prop} {store : σ → MemoryStore}
    {threads : σ → List θ} {issued : σ → List String}
    (hstep : ∀ s s' F, AllCopies (Known F (issued s)) copy (store s) (threads s) → next s s' →
      ∃ F', AllCopies (Known F' (issued s')) copy (store s') (threads s') ∧
        Extends (issued s) F (issued s') F')
    {s s' : σ} {F : String → SubmissionIdentity}
    (h : AllCopies (Known F (issued s)) copy (store s) (threads s))
    (hlater : Relation.ReflTransGen next s s') :
    ∃ F', AllCopies (Known F' (issued s')) copy (store s') (threads s') ∧
      Extends (issued s) F (issued s') F' := by
  induction hlater with
  | refl => exact ⟨F, h, .refl _ _⟩
  | tail _ hnext ih =>
    obtain ⟨F₁, hall, hext⟩ := ih
    obtain ⟨F₂, hall', hext'⟩ := hstep _ _ F₁ hall hnext
    refine ⟨F₂, hall', fun id hid => ?_⟩
    obtain ⟨hid₁, heq₁⟩ := hext id hid
    obtain ⟨hid₂, heq₂⟩ := hext' id hid₁
    exact ⟨hid₂, heq₂.trans heq₁⟩

/-- The identity of a stored submission is the one its id stands for. -/
theorem AllCopies.identity (h : AllCopies (Known F issued) copy store threads) {id : String}
    {sub : Submission} (hget : store.getSubmission id = some sub) :
    id ∈ issued ∧ identityOf sub = F id := by
  obtain ⟨row, hrow, rfl⟩ := Option.map_eq_some_iff.mp hget
  have hknown := h.stored id row hrow
  rw [SubmissionTable.id_of_get? hrow] at hknown
  rwa [Stored.copy_eq]

/-- Two reads of one id, at any distance. -/
theorem AllCopies.identity_eq {σ : Type} {next : σ → σ → Prop} {store : σ → MemoryStore}
    {threads : σ → List θ} {issued : σ → List String}
    (hstep : ∀ s s' F, AllCopies (Known F (issued s)) copy (store s) (threads s) → next s s' →
      ∃ F', AllCopies (Known F' (issued s')) copy (store s') (threads s') ∧
        Extends (issued s) F (issued s') F')
    {s₀ s s' : σ} (h₀ : AllCopies (Known F (issued s₀)) copy (store s₀) (threads s₀))
    (hrun : Relation.ReflTransGen next s₀ s) (hlater : Relation.ReflTransGen next s s')
    {id : String} {sub sub' : Submission} (hget : (store s).getSubmission id = some sub)
    (hget' : (store s').getSubmission id = some sub') : identityOf sub' = identityOf sub := by
  obtain ⟨F₁, hall, -⟩ := AllCopies.later hstep h₀ hrun
  obtain ⟨F₂, hall', hext⟩ := AllCopies.later hstep hall hlater
  obtain ⟨hid, hF⟩ := hall.identity hget
  rw [(hall'.identity hget').2, (hext id hid).2, hF]

/-- A store at rest, before any thread. -/
theorem allCopies_init (hissued : ∀ id, (store.status id).isSome = true → id ∈ issued) :
    ∃ F, AllCopies (Known F issued) copy store [] := by
  refine ⟨fun id => ((store.submissions.get? id).map fun row => identityOf row.val).getD
    ⟨"", {}, [], none, 0⟩, fun id row hrow => ?_, fun t ht => by cases ht⟩
  rw [SubmissionTable.id_of_get? hrow]
  refine ⟨hissued id ?_, ?_⟩
  · rw [MemoryStore.status, hrow]
    rfl
  · simp only [hrow, Option.map_some, Option.getD_some]

end Known

/-! ## Local mode -/

def LocalThread.copy : LocalThread → Option Submission
  | .handler h => Handler.copy h
  | .worker r _ => r.pc.copy
  | .ended => none

section Given

variable [GoStd] {o : Orchestrator}

theorem LocalMove.known {s s' : LocalState} {a : LocalAction} (hm : LocalMove o s a s')
    {F : String → SubmissionIdentity}
    (h : AllCopies (Known F s.issued) LocalThread.copy s.world.store s.threads) :
    ∃ F', AllCopies (Known F' s'.issued) LocalThread.copy s'.world.store s'.threads ∧
      Extends s.issued F s'.issued F' := by
  cases hm with
  | create hnew hcheck => exact h.create hnew rfl rfl
  | refused | resume | adjudicate | take =>
    exact ⟨F, h.spawn fun _ hx => (by cases hx), .refl _ _⟩
  | handler hi hcall =>
    exact ⟨F, h.moved hi (Handler.step_copies localDispatcher_writesJobs hcall), .refl _ _⟩
  | run hi hcall => exact ⟨F, h.moved hi (Run.step_copies hcall), .refl _ _⟩
  | finish hi hfin hpool => exact ⟨F, h.moved hi (.drop rfl rfl), .refl _ _⟩
  | close => exact ⟨F, h, .refl _ _⟩

/-- **A submission stays what it was submitted as**, in local mode:
whoever writes it, whenever it is read. -/
theorem local_identity_fixed {ok : LocalState → LocalAction → Prop} {s s' : LocalState}
    (h : (localSys o).Reach ok s) (hlater : Relation.ReflTransGen ((localSys o).Next ok) s s')
    {id : String} {sub sub' : Submission} (hget : s.world.store.getSubmission id = some sub)
    (hget' : s'.world.store.getSubmission id = some sub') : identityOf sub' = identityOf sub := by
  have hstep (s s' : LocalState) (F : String → SubmissionIdentity)
      (hall : AllCopies (Known F s.issued) LocalThread.copy s.world.store s.threads)
      (hnext : (localSys o).Next ok s s') :=
    LocalMove.known (localStep_move hnext.choose_spec.2) hall
  obtain ⟨s₀, ⟨-, hthreads, hinit⟩, hrun⟩ := h
  obtain ⟨F₀, h₀⟩ : ∃ F, AllCopies (Known F s₀.issued) LocalThread.copy s₀.world.store [] := by
    refine allCopies_init fun id hsome => ?_
    obtain ⟨st, hst⟩ := Option.isSome_iff_exists.mp hsome
    exact (hinit id st hst).2
  rw [← hthreads] at h₀
  exact AllCopies.identity_eq hstep h₀ hrun hlater hget hget'

end Given

/-- The submission is created, and then a run marks it. -/
theorem local_identity_fixed_running :
    ∃ (s s' : LocalState) (sub sub' : Submission),
      (@localSys GoStd.plain (@Orchestrator.plain GoStd.plain)).Reach (fun _ _ => True) s ∧
      s.world.store.getSubmission "sub_a" = some sub ∧
      s'.world.store.getSubmission "sub_a" = some sub' ∧
      sub.status = .accepted ∧ sub'.status = .running ∧ identityOf sub' = identityOf sub := by
  let _ := GoStd.plain
  let sys := localSys Orchestrator.plain
  let acts : List LocalAction :=
    [.create { artifact := { purl := some "pkg:npm/a@1" } } "h" "sub_a" 0, .handler 0 {},
      .handler 0 {}, .handler 0 {}]
  let later : List LocalAction := .take 0 scanEnv :: List.replicate 3 (.run 1 {})
  have hrun : ((sys.run (fun _ _ => True) acts .fresh).bind fun s =>
      (sys.run (fun _ _ => True) later s).map fun s' =>
        ((s.world.store.getSubmission "sub_a").map (·.status),
          (s'.world.store.getSubmission "sub_a").map (·.status))) =
      some (some .accepted, some .running) := by
    decide +kernel
  obtain ⟨s, hs, hmap⟩ := Option.bind_eq_some_iff.mp hrun
  obtain ⟨s', hs', heq⟩ := Option.map_eq_some_iff.mp hmap
  simp only [Prod.mk.injEq] at heq
  obtain ⟨sub, hget, hst⟩ := Option.map_eq_some_iff.mp heq.1
  obtain ⟨sub', hget', hst'⟩ := Option.map_eq_some_iff.mp heq.2
  have hreach : sys.Reach (fun _ _ => True) s :=
    (LocalState.reach_fresh.mono fun _ _ _ => trivial).of_run hs
  exact ⟨s, s', sub, sub', hreach, hget, hget', hst, hst',
    local_identity_fixed hreach (Sys.later_of_run hs') hget hget'⟩

/-! ## Queue mode -/

/-- The record a worker holds. -/
def WorkerPc.copy : WorkerPc → Option Submission
  | .exceeded _ sub => some sub
  | .processing r _ => r.pc.copy
  | _ => none

def QueueThread.copy : QueueThread → Option Submission
  | .handler _ h => Handler.copy h
  | .worker _ _ pc => WorkerPc.copy pc
  | .ended => none

section Given

variable [GoStd] {o : Orchestrator}

theorem WorkerPc.step_copies {p : QueuePool} {owner : String} {env : RunEnv} {ch : Choice}
    {w w' : World} {pc pc' : WorkerPc} (h : pc.step o p owner env ch w = some (w', pc')) :
    CopiesFrom w.store (WorkerPc.copy pc) w'.store (WorkerPc.copy pc') := by
  cases WorkerPc.step_move h with
  | exceed hget => exact .read hget (.refl _)
  | fail => exact .put rfl rfl ⟨rfl, rfl⟩ fun _ hx => by cases hx
  | run hcall => exact Run.step_copies hcall
  | _ => exact .drop rfl rfl

theorem QueueCall.known {s s' : QueueState} {a : QueueAction} (hm : QueueCall o s a s')
    {F : String → SubmissionIdentity}
    (h : AllCopies (Known F s.issued) QueueThread.copy s.store s.threads) :
    ∃ F', AllCopies (Known F' s'.issued) QueueThread.copy s'.store s'.threads ∧
      Extends s.issued F s'.issued F' := by
  cases hm with
  | create hnew hcheck => exact h.create hnew rfl rfl
  | refused | resume | adjudicate | start =>
    exact ⟨F, h.spawn fun _ hx => (by cases hx), .refl _ _⟩
  | boot | close => exact ⟨F, h, .refl _ _⟩
  | handler hi hgw hcall =>
    exact ⟨F, h.moved hi (Handler.step_copies queueDispatcher_writesJobs hcall), .refl _ _⟩
  | worker hi hgw hcall => exact ⟨F, h.moved hi (WorkerPc.step_copies hcall), .refl _ _⟩
  | heartbeat => exact ⟨F, ⟨h.stored, h.held⟩, .refl _ _⟩
  | crash i => exact ⟨F, h.lost i rfl, .refl _ _⟩

/-- **A submission stays what it was submitted as**, in queue mode, for
any number of processes. -/
theorem queue_identity_fixed {ok : QueueState → QueueAction → Prop} {s s' : QueueState}
    (h : (queueSys o).Reach ok s) (hlater : Relation.ReflTransGen ((queueSys o).Next ok) s s')
    {id : String} {sub sub' : Submission} (hget : s.store.getSubmission id = some sub)
    (hget' : s'.store.getSubmission id = some sub') : identityOf sub' = identityOf sub := by
  have hstep (s s' : QueueState) (F : String → SubmissionIdentity)
      (hall : AllCopies (Known F s.issued) QueueThread.copy s.store s.threads)
      (hnext : (queueSys o).Next ok s s') :=
    QueueCall.known (queueStep_call hnext.choose_spec.2) hall
  obtain ⟨s₀, ⟨-, hthreads, hinit⟩, hrun⟩ := h
  obtain ⟨F₀, h₀⟩ : ∃ F, AllCopies (Known F s₀.issued) QueueThread.copy s₀.store [] :=
    allCopies_init fun id hsome => hinit id (.inl hsome)
  rw [← hthreads] at h₀
  exact AllCopies.identity_eq hstep h₀ hrun hlater hget hget'

end Given

/-- A worker crashes after it has marked the submission. -/
theorem queue_identity_fixed_crashed :
    ∃ (s s' : QueueState) (sub sub' : Submission),
      (@queueSys GoStd.plain (@Orchestrator.plain GoStd.plain)).Reach (fun _ _ => True) s ∧
      s.store.getSubmission "sub_a" = some sub ∧ s'.store.getSubmission "sub_a" = some sub' ∧
      sub.status = .accepted ∧ sub'.status = .running ∧ identityOf sub' = identityOf sub := by
  let _ := GoStd.plain
  let sys := queueSys Orchestrator.plain
  let acts : List QueueAction :=
    [.boot {} "w" "src", .create 0 { artifact := { purl := some "pkg:npm/a@1" } } "h" "sub_a" 0,
      .handler 0 {}, .handler 0 {}, .handler 0 {}]
  let later : List QueueAction :=
    [.start 0 0, .worker 1 scanEnv {}, .worker 1 scanEnv { order := ["sub_a"] }] ++
      List.replicate 4 (.worker 1 scanEnv {}) ++ [.crash 1]
  have hrun : ((sys.run (fun _ _ => True) acts
      { store := {}, gateways := [], threads := [], issued := [] }).bind fun s =>
        (sys.run (fun _ _ => True) later s).map fun s' =>
          ((s.store.getSubmission "sub_a").map (·.status),
            (s'.store.getSubmission "sub_a").map (·.status))) =
      some (some .accepted, some .running) := by
    decide +kernel
  obtain ⟨s, hs, hmap⟩ := Option.bind_eq_some_iff.mp hrun
  obtain ⟨s', hs', heq⟩ := Option.map_eq_some_iff.mp hmap
  simp only [Prod.mk.injEq] at heq
  obtain ⟨sub, hget, hst⟩ := Option.map_eq_some_iff.mp heq.1
  obtain ⟨sub', hget', hst'⟩ := Option.map_eq_some_iff.mp heq.2
  have hreach : sys.Reach (fun _ _ => True) s := by
    refine Sys.Reach.of_run (.init ⟨rfl, rfl, fun id hid => ?_⟩) hs
    rcases hid with hid | hid <;> cases hid
  exact ⟨s, s', sub, sub', hreach, hget, hget', hst, hst',
    queue_identity_fixed hreach (Sys.later_of_run hs') hget hget'⟩

end Scintx.System
