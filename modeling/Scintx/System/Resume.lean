/-
Scintx.System.Resume — a resume that fails leaves no trace.

`ClaimResume` marks a deferred submission running; if the pool then takes
no job, `ReleaseResume` undoes that. It does not remember what the record
was: it writes deferred as the status and as the completion reason and
clears the completion time, whatever stood there. So the record is
restored only because every deferred record LOOKS like that
(`EndAgrees`), which is an invariant of all that handlers and runs write,
over any number of deferrals and resumes (`endInv_reach`).

Between the two calls nobody else writes the record: the handler that
claimed the submission holds it (`held_record`), by the counting of
`LocalTheorems`.
-/
import Scintx.Api.Embedding
import Scintx.System.LocalTheorems

namespace Scintx.System

open Scintx.Lib Scintx.Api Scintx.Store Scintx.Orchestrator Scintx.Workers Scintx.Server

/-! ## Records that agree with their status -/

/-- What a record says about the end of the work agrees with its status. -/
structure EndAgrees (sub : Submission) : Prop where
  undated : sub.status ≠ .completed → sub.status ≠ .failed → sub.completedAt = none
  reason : sub.status = .deferred → sub.completionReason = some .deferred

/-- A record that may be written back as running or deferred. -/
structure Unended (sub : Submission) : Prop where
  undated : sub.completedAt = none
  reason : sub.status = .deferred → sub.completionReason = some .deferred

theorem Unended.agrees {sub : Submission} (h : Unended sub) : EndAgrees sub :=
  ⟨fun _ _ => h.undated, h.reason⟩

theorem EndAgrees.unended {sub : Submission} (h : EndAgrees sub) (hc : sub.status ≠ .completed)
    (hf : sub.status ≠ .failed) : Unended sub :=
  ⟨h.undated hc hf, h.reason⟩

theorem endAgrees_of_final {sub : Submission} (h : sub.status = .completed ∨ sub.status = .failed) :
    EndAgrees sub := by
  refine ⟨fun hc hf => ?_, fun hd => ?_⟩
  · rcases h with h | h
    · exact absurd h hc
    · exact absurd h hf
  · rcases h with h | h <;> cases h.symm.trans hd

/-- Every row is an old one or agrees with its status. -/
def RowsAgree (w w' : World) : Prop :=
  ∀ id row, w'.record id = some row → w.record id = some row ∨ EndAgrees row.val

section Rows

variable {w w' : World}

theorem RowsAgree.same (h : w'.store.submissions = w.store.submissions) : RowsAgree w w' := by
  intro id row hrow
  rw [World.record, h] at hrow
  exact .inl hrow

theorem RowsAgree.put {sub : Submission}
    (h : w'.store.submissions = w.store.submissions.put (.of sub)) (hsub : EndAgrees sub) :
    RowsAgree w w' := by
  intro id row hrow
  rw [World.record, h, SubmissionTable.get?_put_of] at hrow
  split at hrow
  · cases hrow
    exact .inr ⟨hsub.undated, hsub.reason⟩
  · exact .inl hrow

end Rows

/-! ## The two calls on their own -/

section Calls

variable {s : MemoryStore} {id : String} {row : Stored Submission}

/-- What `ClaimResume` makes of a record, and `ReleaseResume` of that. -/
def claimed (sub : Submission) : Submission := { sub with status := .running }

def released (sub : Submission) : Submission :=
  { sub with status := .deferred, completionReason := some .deferred, completedAt := none }

theorem released_claimed {sub : Submission} (h : EndAgrees sub) (hd : sub.status = .deferred) :
    released (claimed sub) = sub := by
  have hreason := h.reason hd
  have hundated := h.undated (by simp [hd]) (by simp [hd])
  obtain ⟨⟩ := sub
  simp only at hd hreason hundated
  subst hd hreason hundated
  rfl

theorem claimResume_deferred (hrow : s.submissions.get? id = some row)
    (hd : row.val.status = .deferred) :
    s.claimResume id = (.ok (cloneJSON (claimed row.val)), s.putSubmission (claimed row.val)) := by
  unfold MemoryStore.claimResume
  simp only [hrow, hd, ne_eq, not_true_eq_false, if_false]
  rfl

theorem claimResume_refused (h : s.status id ≠ some .deferred) :
    s.claimResume id = (.error .resumeNotDeferred, s) := by
  unfold MemoryStore.claimResume
  cases hrow : s.submissions.get? id with
  | none => rfl
  | some row =>
    have hne : row.val.status ≠ .deferred := by simpa [MemoryStore.status, hrow] using h
    simp only [hne, ne_eq, not_false_eq_true, if_true]

theorem releaseResume_running (hrow : s.submissions.get? id = some row)
    (hr : row.val.status = .running) : s.releaseResume id = s.putSubmission (released row.val) := by
  unfold MemoryStore.releaseResume
  simp only [hrow, hr, ne_eq, not_true_eq_false, if_false]
  rfl

/-- A store is a row away from itself. -/
theorem putSubmission_self (hrow : s.submissions.get? id = some row) :
    s.putSubmission row.val = s := by
  have hsame : s.submissions.put (.of row.val) = s.submissions := by
    refine Table.ext_get? fun y => ?_
    rw [SubmissionTable.get?_put_of, SubmissionTable.id_of_get? hrow]
    split
    · rename_i hy
      rw [hy, hrow]
      exact congrArg some (Stored.ext row.clean)
    · rfl
  rw [MemoryStore.putSubmission, hsame]

theorem putSubmission_putSubmission {sub sub' : Submission} (h : sub'.id = sub.id) :
    (s.putSubmission sub).putSubmission sub' = s.putSubmission sub' := by
  have hsame : (s.submissions.put (.of sub)).put (.of sub') = s.submissions.put (.of sub') := by
    refine Table.ext_get? fun y => ?_
    simp only [SubmissionTable.get?_put_of, h]
    split <;> rfl
  simp only [MemoryStore.putSubmission, hsame]

/-- `ReleaseResume` after `ClaimResume` gives the store back, if the record
agrees with its status. -/
theorem releaseResume_claimResume (hrow : s.submissions.get? id = some row)
    (hd : row.val.status = .deferred) (h : EndAgrees row.val) :
    (s.claimResume id).2.releaseResume id = s := by
  have hid := SubmissionTable.id_of_get? hrow
  have hclaimed : (s.putSubmission (claimed row.val)).submissions.get? id =
      some (.of (claimed row.val)) := by
    rw [MemoryStore.putSubmission, SubmissionTable.get?_put_of]
    exact if_pos hid.symm
  have hback : released (Stored.of (claimed row.val)).val = row.val := by
    have hclean : cloneJSON (claimed row.val) = claimed row.val :=
      congrArg claimed row.clean
    rw [Stored.val_of, hclean, released_claimed h hd]
  have hsameID : row.val.id = (claimed row.val).id := rfl
  rw [claimResume_deferred hrow hd, releaseResume_running hclaimed rfl, hback,
    putSubmission_putSubmission hsameID, putSubmission_self hrow]

end Calls

/-! ## Runs -/

/-- The record a run holds may be written back. -/
def CopyUnended (pc : Pc) : Prop :=
  ∀ sub, pc.copy = some sub → Unended sub

theorem unended_of_copy {pc : Pc} {sub : Submission} (hcopy : pc.copy = some sub)
    (h : Unended sub) : CopyUnended pc := by
  intro s hs
  rw [hcopy, Option.some.injEq] at hs
  exact hs ▸ h

theorem unended_of_none {pc : Pc} (hcopy : pc.copy = none) : CopyUnended pc := by
  intro s hs
  rw [hcopy] at hs
  cases hs

section Given

variable [GoStd] {o : Orchestrator} {env : RunEnv} {ch : Choice}

/-- What a run writes agrees with its status, if what it reads may be
written back. -/
theorem pcStep_agrees (hstore : ch.storeErr = none) {subID : String} {w w' : World} {pc pc' : Pc}
    {out : List Emission} (hcopy : CopyUnended pc)
    (hread : pc.stage ≠ .done → ∀ sub, w.store.getSubmission subID = some sub → Unended sub)
    (h : pcStep o env ch subID w pc = some (w', pc', out)) :
    CopyUnended pc' ∧ RowsAgree w w' := by
  cases pcStep_move hstore h with
  | cancelled | start | notFound | cancelledEmpty | join | cancelledJoined | joined | disappeared
  | interruptedMissing | interruptedLate => exact ⟨unended_of_none rfl, .same rfl⟩
  | load hget => exact ⟨unended_of_copy rfl (hread (by simp [Pc.stage]) _ hget), .same rfl⟩
  | reload ids hget =>
    have hsub := hread (by simp [Pc.stage]) _ hget
    exact ⟨unended_of_copy rfl ⟨hsub.undated, hsub.reason⟩, .same rfl⟩
  | interruptedLoad cause hget =>
    exact ⟨unended_of_copy rfl (hread (by simp [Pc.stage]) _ hget), .same rfl⟩
  | mark sub =>
    have hrunning : Unended { sub with status := .running } :=
      ⟨(hcopy sub rfl).undated, fun h => by cases h⟩
    exact ⟨unended_of_copy rfl hrunning, .put rfl hrunning.agrees⟩
  | unreadable | ineligible | select | noProvider | weigh | merge | mergeStored | rule
  | noRuling => exact ⟨unended_of_copy rfl (hcopy _ rfl), .same rfl⟩
  | goroutine hgo hstep =>
    exact ⟨unended_of_copy rfl (hcopy _ rfl), .same (goStep_frame hstep).2⟩
  | findings sub | collect sub =>
    have hsub := hcopy sub rfl
    exact ⟨unended_of_copy rfl hsub, .put rfl hsub.agrees⟩
  | deferring sub | deciding sub =>
    have hsub := hcopy sub rfl
    exact ⟨unended_of_copy rfl ⟨hsub.undated, hsub.reason⟩, .same rfl⟩
  | deferred sub =>
    exact ⟨unended_of_none rfl, .put rfl ⟨fun _ _ => (hcopy sub rfl).undated, fun _ => rfl⟩⟩
  | completed =>
    exact ⟨unended_of_none rfl, .put rfl (endAgrees_of_final (.inl settled_status))⟩
  | failed | interrupted =>
    exact ⟨unended_of_none rfl, .put rfl (endAgrees_of_final (.inr rfl))⟩

theorem runStep_agrees (hstore : ch.storeErr = none) {w w' : World} {r r' : Run}
    (hcopy : CopyUnended r.pc)
    (hread : r.pc.stage ≠ .done → ∀ sub, w.store.getSubmission r.subID = some sub → Unended sub)
    (h : r.step o env ch w = some (w', r')) : CopyUnended r'.pc ∧ RowsAgree w w' := by
  cases Run.step_move h with
  | emit => exact ⟨hcopy, .same (World.emit_submissions ..)⟩
  | call _ hcall => exact pcStep_agrees hstore hcopy hread hcall

end Given

/-! ## Handlers -/

/-- A submission that a handler is about to store has no end yet. -/
def HandlerUnended : Handler → Prop
  | .createReserve _ _ sub | .createPut _ _ _ sub => sub.completedAt = none
  | _ => True

/-- The steps of a handler that write a submission. -/
inductive HandlerWrite (store : MemoryStore) : Handler → MemoryStore → Prop
  | create {tok : Nat} {key hash : String} {sub : Submission} :
      HandlerWrite store (.createPut tok key hash sub) (store.bindSubmission key hash sub)
  | abandon {tok : Nat} {key id : String} {answer : Response} :
      HandlerWrite store (.createAbandon tok key id answer) (store.abandonSubmission id key).2
  | claim {id : String} : HandlerWrite store (.resumeClaim id) (store.claimResume id).2
  | unclaim {id : String} {e : DispatchError} :
      HandlerWrite store (.resumeUnmark id e) (store.releaseResume id)
  | resolve {sub : Submission} {prior dec : PolicyDecision} {req : AdjudicateRequest} :
      HandlerWrite store (.adjudicatePutSubmission sub prior dec req) (store.putSubmission sub)

section Handlers

variable {σ : Type} {d : Dispatcher σ} {ch : HandlerChoice} {p p' : σ} {w w' : World}
  {h h' : Handler}

theorem handlerStep_write (hd : KeepsSubmissions d)
    (hstep : h.step d ch p w = some (p', w', h')) (hopen : HandlerUnended h) :
    HandlerUnended h' ∧ (w'.store.submissions = w.store.submissions ∨
      HandlerWrite w.store h w'.store) := by
  cases Handler.step_move hstep with
  | reserved => exact ⟨hopen, .inl rfl⟩
  | created => exact ⟨trivial, .inr .create⟩
  | commitFailed key hcommit | committed key hcommit | resumeFailed hcommit | resumed hcommit =>
    have hkeep := congrArg (·.2.2.store.submissions) hcommit
    exact ⟨trivial, .inl (hkeep.symm.trans (hd ..))⟩
  | abandoned => exact ⟨trivial, .inr .abandon⟩
  | @claimed id _ _ hclaim =>
    have hwrite : HandlerWrite w.store (.resumeClaim id) (w.store.claimResume id).2 := .claim
    rw [hclaim] at hwrite
    exact ⟨trivial, .inr hwrite⟩
  | unmarked => exact ⟨trivial, .inr .unclaim⟩
  | overruled => exact ⟨trivial, .inr .resolve⟩
  | told => exact ⟨trivial, .inl (World.emit_submissions ..)⟩
  | _ => exact ⟨trivial, .inl rfl⟩

/-- What a handler writes agrees with its status. -/
theorem HandlerWrite.agrees (hwrite : HandlerWrite w.store h w'.store)
    (hrows : ∀ id row, w.record id = some row → EndAgrees row.val) (hopen : HandlerUnended h)
    (hfresh : h.Fresh) (hsound : (Party.handler h.stage).Sound) : RowsAgree w w' := by
  generalize hstore : w'.store = store at hwrite
  cases hwrite with
  | create =>
    rename_i tok key hash sub
    refine .put (hstore ▸ w.store.bindSubmission_submissions key hash sub) ?_
    have hstatus : sub.status = .accepted := hfresh
    exact ⟨fun _ _ => hopen, fun hd => by cases hstatus.symm.trans hd⟩
  | abandon =>
    rename_i tok key id answer
    intro y row hrow
    rw [World.record, hstore] at hrow
    by_cases hacc : w.store.status id = some .accepted
    · rw [(MemoryStore.abandonSubmission_ok hacc).1, Table.get?_erase] at hrow
      split at hrow
      · cases hrow
      · exact .inl hrow
    · rw [MemoryStore.abandonSubmission_rejected hacc] at hrow
      exact .inl hrow
  | claim =>
    rename_i id
    by_cases hd : w.store.status id = some .deferred
    · obtain ⟨row, hrow, hstatus⟩ := Option.map_eq_some_iff.mp hd
      rw [claimResume_deferred hrow hstatus] at hstore
      have hopen := (hrows id row hrow).unended (by simp [hstatus]) (by simp [hstatus])
      exact .put (congrArg _ hstore) ⟨fun _ _ => hopen.undated, fun h => by cases h⟩
    · rw [claimResume_refused hd] at hstore
      exact .same (congrArg _ hstore)
  | unclaim =>
    rename_i id e
    rcases w.store.releaseResume_cases id with ⟨-, hsame⟩ | ⟨hr, -⟩
    · exact .same (by rw [hstore, hsame])
    · obtain ⟨row, hrow, hstatus⟩ := Option.map_eq_some_iff.mp hr
      rw [releaseResume_running hrow hstatus] at hstore
      exact .put (congrArg _ hstore) ⟨fun _ _ => rfl, fun _ => rfl⟩
  | resolve =>
    refine .put (congrArg _ hstore) (endAgrees_of_final (.inl ?_))
    exact hsound _ _ rfl

end Handlers

/-! ## The invariant -/

def ThreadUnended : LocalThread → Prop
  | .handler h => HandlerUnended h
  | .worker r _ => CopyUnended r.pc
  | .ended => True

structure EndInv (s : LocalState) : Prop where
  rows : ∀ id row, s.world.record id = some row → EndAgrees row.val
  copies : ∀ t ∈ s.threads, ThreadUnended t

section Inv

variable {s s' : LocalState}

/-- A thread moves: it writes rows that agree and holds a copy that may be
written back. -/
theorem EndInv.move (h : EndInv s) {i : Nat} {t : LocalThread} {world : World} {pool : LocalPool}
    (hrows : RowsAgree s.world world) (ht : ThreadUnended t) :
    EndInv { s with world := world, pool := pool, threads := s.threads.set i t } where
  rows id row hrow := (hrows id row hrow).elim (h.rows id row) fun hrow => hrow
  copies u hu := by
    rcases mem_set_cases hu with rfl | hold
    · exact ht
    · exact h.copies u hold

theorem EndInv.spawn (h : EndInv s) {t : LocalThread} {pool : LocalPool} {issued : List String}
    (ht : ThreadUnended t) :
    EndInv { s with pool := pool, issued := issued, threads := s.threads ++ [t] } where
  rows := h.rows
  copies u hu := by
    rcases List.mem_append.mp hu with hold | hnew
    · exact h.copies u hold
    · exact List.mem_singleton.mp hnew ▸ ht

/-- A live submission that is read may be written back. -/
theorem EndInv.read (h : EndInv s) {id : String} (hlive : isLive (s.world.status id) = true)
    {sub : Submission} (hget : s.world.store.getSubmission id = some sub) : Unended sub := by
  rw [MemoryStore.getSubmission, Option.map_eq_some_iff] at hget
  obtain ⟨row, hrow, rfl⟩ := hget
  have hstatus : s.world.status id = some row.val.status := by
    rw [World.status, MemoryStore.status, hrow]
    rfl
  rw [hstatus] at hlive
  rw [Stored.copy_eq]
  refine (h.rows id row hrow).unended ?_ ?_
  · intro hc
    rw [hc] at hlive
    cases hlive
  · intro hf
    rw [hf] at hlive
    cases hlive

variable [GoStd] {o : Orchestrator}

theorem localStep_agrees (hinv : LocalInv s) (h : EndInv s) {a : LocalAction} (hok : a.StoreOk)
    (hstep : localStep o a s = some s') : EndInv s' := by
  cases localStep_move hstep with
  | create => exact h.spawn rfl
  | refused | resume | adjudicate => exact h.spawn trivial
  | handler hi hcall =>
    have hmem := List.mem_of_getElem? hi
    obtain ⟨hopen, hwrite⟩ := handlerStep_write localDispatcher_keeps hcall (h.copies _ hmem)
    refine h.move ?_ hopen
    rcases hwrite with hsame | hwrite
    · exact .same hsame
    · exact hwrite.agrees h.rows (h.copies _ hmem) (hinv.formed _ hmem)
        (hinv.parties.sound _ (List.mem_of_getElem? (party_getElem? hi)))
  | take => exact h.spawn (unended_of_none rfl)
  | run hi hcall =>
    rename_i r r' env world
    -- a run with work to do finds its submission live
    have hread : r.pc.stage ≠ .done → ∀ sub,
        s.world.store.getSubmission r.subID = some sub → Unended sub := by
      intro hne sub hget
      refine h.read (hinv.parties.live_of_holder (party_getElem? hi) ?_) hget
      exact if_neg hne
    obtain ⟨hcopy, hrows⟩ :=
      runStep_agrees hok (h.copies _ (List.mem_of_getElem? hi)) hread hcall
    exact h.move hrows hcopy
  | finish => exact h.move (.same rfl) trivial
  | close => exact ⟨h.rows, h.copies⟩

/-- Local mode on a store that is empty, or that earlier processes have
left. -/
def restedSys (o : Orchestrator) : Sys LocalState LocalAction where
  init s := (localSys o).init s ∧ ∀ id row, s.world.record id = some row → EndAgrees row.val
  step := localStep o

theorem endInv_reach (h : (restedSys o).Reach (fun _ a => a.StoreOk) s) :
    LocalInv s ∧ EndInv s := by
  refine h.invariant (I := fun s => LocalInv s ∧ EndInv s) ?_ ?_
  · intro s hinit
    refine ⟨localInv_init hinit.1, hinit.2, ?_⟩
    intro t ht
    rw [hinit.1.2.1] at ht
    cases ht
  · intro s a s' hinv hok hstep
    exact ⟨(localStep_kept hinv.1 hok hstep).inv, localStep_agrees hinv.1 hinv.2 hok hstep⟩

end Inv

/-! ## Between the two calls -/

/-- Thread `i` has claimed `id` and neither submitted it nor given it
back. -/
def Holding (i : Nat) (id : String) (s : LocalState) : Prop :=
  ∃ hd, s.threads[i]? = some (.handler hd) ∧ (hd.stage = .resuming id ∨ hd.stage = .reverting id)

section Holding

variable {s s' : LocalState} {i : Nat} {id : String}

theorem Holding.expects (h : Holding i id s) :
    ∃ t, (s.threads.map LocalThread.party)[i]? = some t ∧ t.holder = some id ∧
      t.expects = some (id, some .running) := by
  obtain ⟨hd, hi, hst⟩ := h
  refine ⟨_, party_getElem? hi, ?_⟩
  rcases hst with hst | hst <;> simp [LocalThread.party, Party.holder, Party.expects, hst,
    HStage.holder, HStage.expects]

theorem Holding.running (h : Holding i id s) (hinv : LocalInv s) :
    s.world.status id = some .running := by
  obtain ⟨t, hi, -, hexp⟩ := h.expects
  exact hinv.parties.held.expected i t hi id _ hexp

/-- Another thread does not write the record. -/
theorem Holding.record_other (h : Holding i id s) (hinv : LocalInv s) {j : Nat} {t t' : Party}
    (hj : (s.threads.map LocalThread.party)[j]? = some t) (hne : j ≠ i) {k : String} {w' : World}
    (hk : Kept k s.world t w' t') : w'.record id = s.world.record id := by
  by_cases hid : id = k
  · subst hid
    by_contra hchanged
    obtain ⟨u, hi, -, hexp⟩ := h.expects
    have hrun := h.running hinv
    rcases hk.writes hchanged with hholder | hfree | ⟨c, rfl⟩
    · exact hinv.parties.held.unexpected hj hi (Ne.symm hne) hexp
        (.inl (by simp [tenancy, hholder]))
    · rw [hrun] at hfree
      cases hfree
    · have hdone := hinv.parties.held.expected j _ hj id (some .completed) rfl
      rw [hrun] at hdone
      cases hdone
  · exact hk.others id hid

/-- A handler that goes on holding a submission writes none. -/
theorem heldStep_submissions {p p' : LocalPool} {w w' : World} {st st' : HStage}
    (h : HandlerStep localDispatcher p w st p' w' st')
    (hst : st = .resuming id ∨ st = .reverting id)
    (hst' : st' = .resuming id ∨ st' = .reverting id) :
    w'.store.submissions = w.store.submissions := by
  cases h with
  | quiet hadm hsame => exact hsame
  | reserve | release | refuseResume => rfl
  | resumeFailed hcommit | commitFailed hcommit => rw [(localCommit_error hcommit).1]
  | create | claim => rcases hst with hst | hst <;> cases hst
  | _ => rcases hst' with hst' | hst' <;> cases hst'

variable [GoStd] {o : Orchestrator}

/-- **Nobody writes the record** while the handler holds it. -/
theorem held_record (hinv : LocalInv s) (h : Holding i id s) (h' : Holding i id s')
    {a : LocalAction} (hok : a.StoreOk) (hstep : localStep o a s = some s') :
    s'.world.record id = s.world.record id := by
  cases localStep_move hstep with
  | handler hj hcall =>
    rename_i j ch hd hd' pool world
    obtain ⟨-, hstage⟩ := Handler.step_stage hok (hinv.formed _ (List.mem_of_getElem? hj)) hcall
    by_cases hne : j = i
    · -- its own step, after which it still holds the submission
      subst hne
      obtain ⟨hd₁, hi₁, hst⟩ := h
      obtain ⟨hd₂, hi₂, hst'⟩ := h'
      cases hj.symm.trans hi₁
      rw [List.getElem?_set_self (List.getElem?_eq_some_iff.mp hj).1] at hi₂
      cases hi₂
      rw [World.record, World.record, heldStep_submissions hstage hst hst']
    · obtain ⟨k, hk⟩ := hinv.parties.handler localDispatcher_keeps (party_getElem? hj) hstage
      exact h.record_other hinv (party_getElem? hj) hne hk
  | run hj hcall =>
    rename_i j ch r r' env world
    obtain ⟨-, -, hstage⟩ := Run.step_stage hok (hinv.formed _ (List.mem_of_getElem? hj)) hcall
    have hne : j ≠ i := by
      intro hji
      obtain ⟨hd, hi, -⟩ := h
      rw [← hji, hj] at hi
      cases hi
    exact h.record_other hinv (party_getElem? hj) hne
      (hinv.parties.run (party_getElem? hj) hstage)
  | _ => rfl

/-- A step of anyone, before and after which the handler holds the
submission. -/
def HeldNext (o : Orchestrator) (i : Nat) (id : String) (s s' : LocalState) : Prop :=
  Holding i id s ∧ Holding i id s' ∧ ∃ a : LocalAction, a.StoreOk ∧ localStep o a s = some s'

theorem held_path (hinv : LocalInv s) (h : Relation.ReflTransGen (HeldNext o i id) s s') :
    LocalInv s' ∧ s'.world.record id = s.world.record id := by
  induction h with
  | refl => exact ⟨hinv, rfl⟩
  | tail _ hnext ih =>
    obtain ⟨hold, hold', a, hok, hstep⟩ := hnext
    exact ⟨(localStep_kept ih.1 hok hstep).inv,
      (held_record ih.1 hold hold' hok hstep).trans ih.2⟩

end Holding

/-! ## The claim and its release -/

/-- The two states differ in the record of `id` at most: no other
submission, no job and no idempotency binding has changed. -/
structure SameBut (id : String) (s s' : LocalState) : Prop where
  others : ∀ y, y ≠ id → s'.world.record y = s.world.record y
  admission : s.world.SameAdmission s'.world
  pool : s'.pool = s.pool

/-- A record of the source with all its fields, of which no function here
reads two. -/
def Shows (full : Record.Submission) (sub : Submission) : Prop :=
  { full with providerSelectors := .same ∅, extensions := .same ∅ } = sub.record

/-- `ClaimResume` and `ReleaseResume` on such a record. -/
def claimedRecord (full : Record.Submission) : Record.Submission :=
  { full with status := .same "running" }

def releasedRecord (full : Record.Submission) : Record.Submission :=
  { full with status := .same "deferred", completionReason := some (.same "deferred")
              completedAt := none }

theorem releasedRecord_claimedRecord {full : Record.Submission} {sub : Submission}
    (h : Shows full sub) (hagrees : EndAgrees sub) (hd : sub.status = .deferred) :
    releasedRecord (claimedRecord full) = full := by
  have hstatus : full.status = .same sub.status.text := congrArg (·.status) h
  have hreason : full.completionReason = sub.completionReason.map fun r => .same r.text :=
    congrArg (·.completionReason) h
  have hdate : full.completedAt = sub.completedAt.map fun t => { time := t } :=
    congrArg (·.completedAt) h
  rw [hd] at hstatus
  rw [hagrees.reason hd] at hreason
  rw [hagrees.undated (by simp [hd]) (by simp [hd])] at hdate
  obtain ⟨⟩ := full
  simp only at hstatus hreason hdate
  subst hstatus hreason hdate
  rfl

theorem sameBut_put {s : LocalState} {store : MemoryStore} {x : Submission}
    {threads : List LocalThread} (h : store = s.world.store.putSubmission x) :
    SameBut x.id s { s with world := { s.world with store := store }, threads := threads } where
  others := World.record_put (congrArg (·.submissions) h)
  admission := by subst h; exact ⟨rfl, rfl, rfl⟩
  pool := rfl

section Given

variable [GoStd] {o : Orchestrator} {s s' : LocalState} {i : Nat} {id : String}
  {ch : HandlerChoice}

/-- The handler claims a deferred submission. -/
theorem claim_step (hinv : LocalInv s) {row : Stored Submission}
    (hrow : s.world.record id = some row) (hd : row.val.status = .deferred)
    (hi : s.threads[i]? = some (.handler (.resumeClaim id))) (hok : ch.storeErr = none)
    (hstep : localStep o (.handler i ch) s = some s') :
    SameBut id s s' ∧ Holding i id s' ∧ LocalInv s' ∧
      s'.world.record id = some (.of (claimed row.val)) := by
  have hinv' := (localStep_kept hinv (a := .handler i ch) hok hstep).inv
  obtain rfl := SubmissionTable.id_of_get? hrow
  have hclaims := claimResume_deferred hrow hd
  cases localStep_move hstep with
  | handler hi' hcall =>
    cases hi.symm.trans hi'
    cases Handler.step_move hcall with
    | claimed hclaim =>
      cases hclaims.symm.trans hclaim
      refine ⟨sameBut_put (x := claimed row.val) rfl,
        ⟨.resumeReserve row.val.id, ?_, .inl rfl⟩, hinv', ?_⟩
      · exact List.getElem?_set_self (List.getElem?_eq_some_iff.mp hi).1
      · exact (SubmissionTable.get?_put_of _ (claimed row.val) _).trans (if_pos rfl)
    | claimRefused id hclaim => cases hclaims.symm.trans hclaim
    | notClaimed => exact absurd hok ‹_›

/-- It gives the submission back. -/
theorem release_step {row : Stored Submission}
    (hrow : s.world.record row.val.id = some (.of (claimed row.val)))
    (hd : row.val.status = .deferred) (hagrees : EndAgrees row.val) {e : DispatchError}
    (hi : s.threads[i]? = some (.handler (.resumeUnmark row.val.id e))) (hok : ch.storeErr = none)
    (hstep : localStep o (.handler i ch) s = some s') :
    SameBut row.val.id s s' ∧ s'.world.record row.val.id = some row := by
  have hclean : (Stored.of (claimed row.val)).val = claimed row.val :=
    congrArg claimed row.clean
  have hback : released (Stored.of (claimed row.val)).val = row.val := by
    rw [hclean, released_claimed hagrees hd]
  have hrelease := releaseResume_running hrow rfl
  rw [hback] at hrelease
  cases localStep_move hstep with
  | handler hi' hcall =>
    cases hi.symm.trans hi'
    cases Handler.step_move hcall with
    | unmarked =>
      rw [hrelease]
      refine ⟨sameBut_put rfl, ?_⟩
      rw [World.record, MemoryStore.putSubmission, SubmissionTable.get?_put_of, if_pos rfl]
      exact congrArg some (Stored.ext row.clean)
    | notUnmarked => exact absurd hok ‹_›

/-- **A resume that fails leaves no trace.** Of a deferred submission in
any state that local mode reaches: the two calls give the store back, in
every field of the record, and no other claim succeeds in between. The
same with everything else that goes on in between, from the handler's
claim to its release. -/
theorem resume_rolls_back (h : (restedSys o).Reach (fun _ a => a.StoreOk) s)
    (hd : s.world.status id = some .deferred) :
    ((s.world.store.claimResume id).1.isOk = true ∧
      (s.world.store.claimResume id).2.releaseResume id = s.world.store ∧
      ((s.world.store.claimResume id).2.claimResume id).1 = .error .resumeNotDeferred ∧
      ∀ row full, s.world.record id = some row → Shows full row.val →
        releasedRecord (claimedRecord full) = full) ∧
    ∀ i ch s₁, s.threads[i]? = some (.handler (.resumeClaim id)) → ch.storeErr = none →
      (restedSys o).step (.handler i ch) s = some s₁ →
      SameBut id s s₁ ∧ Holding i id s₁ ∧
      ∀ s₂, Relation.ReflTransGen (HeldNext o i id) s₁ s₂ →
        (s₂.world.store.claimResume id).1 = .error .resumeNotDeferred ∧
        ∀ e ch' s₃, s₂.threads[i]? = some (.handler (.resumeUnmark id e)) →
          ch'.storeErr = none → (restedSys o).step (.handler i ch') s₂ = some s₃ →
          SameBut id s₂ s₃ ∧ s₃.world.record id = s.world.record id := by
  obtain ⟨hinv, hends⟩ := endInv_reach h
  obtain ⟨row, hrow, hstatus⟩ := Option.map_eq_some_iff.mp hd
  obtain rfl := SubmissionTable.id_of_get? hrow
  have hagrees := hends.rows _ row hrow
  refine ⟨⟨?_, releaseResume_claimResume hrow hstatus hagrees, ?_, ?_⟩, ?_⟩
  · rw [claimResume_deferred hrow hstatus]
    rfl
  · rw [claimResume_deferred hrow hstatus, claimResume_refused]
    rw [MemoryStore.status_putSubmission]
    simp [claimed]
  · intro row' full hrow' hshows
    cases hrow.symm.trans hrow'
    exact releasedRecord_claimedRecord hshows hagrees hstatus
  · intro i ch s₁ hi hok hstep
    obtain ⟨hsame, hholding, hinv₁, hrow₁⟩ :=
      claim_step (o := o) hinv hrow hstatus hi hok hstep
    refine ⟨hsame, hholding, ?_⟩
    intro s₂ hpath
    obtain ⟨hinv₂, hkept⟩ := held_path hinv₁ hpath
    have hrow₂ := hkept.trans hrow₁
    refine ⟨?_, ?_⟩
    · rw [claimResume_refused]
      rw [MemoryStore.status, show s₂.world.store.submissions.get? _ = _ from hrow₂]
      simp [claimed]
    · intro e ch' s₃ hi₂ hok' hstep'
      obtain ⟨hsame', hrow₃⟩ :=
        release_step (o := o) hrow₂ hstatus hagrees hi₂ hok' hstep'
      exact ⟨hsame', hrow₃.trans hrow.symm⟩

end Given

/-- A deferred submission, as a run leaves it. -/
def deferredSubmission : Submission where
  id := "sub_a"
  status := .deferred
  completionReason := some .deferred
  decisionID := some "dec_a"

/-- A new process on a store with that submission. -/
def LocalState.deferred : LocalState :=
  { LocalState.fresh with
    world := { store := ({} : MemoryStore).putSubmission deferredSubmission }
    issued := ["sub_a"] }

theorem LocalState.reach_deferred [GoStd] {o : Orchestrator} :
    (restedSys o).Reach (fun _ a => a.StoreOk) LocalState.deferred := by
  have hrows (id : String) (row : Stored Submission)
      (h : LocalState.deferred.world.record id = some row) :
      id = "sub_a" ∧ row = .of deferredSubmission := by
    rw [World.record, show LocalState.deferred.world.store.submissions.get? id = _ from
      SubmissionTable.get?_put_of _ deferredSubmission id] at h
    split at h
    · rename_i hid
      cases h
      exact ⟨hid, rfl⟩
    · simp at h
  refine .init ⟨⟨⟨16, { maxInflight := 1, workers := 1 }, rfl⟩, rfl, ?_⟩, ?_⟩
  · intro id st hst
    obtain ⟨row, hrow, rfl⟩ := Option.map_eq_some_iff.mp hst
    obtain ⟨rfl, rfl⟩ := hrows id row hrow
    exact ⟨rfl, List.mem_singleton.mpr rfl⟩
  · intro id row hrow
    obtain ⟨-, rfl⟩ := hrows id row hrow
    exact ⟨fun _ _ => rfl, fun _ => rfl⟩

theorem resume_rolls_back_deferred :
    LocalState.deferred.world.status "sub_a" = some .deferred ∧
    (LocalState.deferred.world.store.claimResume "sub_a").2.releaseResume "sub_a" =
      LocalState.deferred.world.store := by
  let _ := GoStd.plain
  refine ⟨by decide, ?_⟩
  exact (resume_rolls_back (o := Orchestrator.plain) LocalState.reach_deferred (by decide)).1.2.1

end Scintx.System
