/-
Scintx.Server.HandlerMoves — what a step of a handler can do.

As `Scintx.Orchestrator.Moves` for runs: a constructor of `HandlerMove`
for each way in which a handler goes on, with what it has read, the
answer of its dispatcher and what it leaves in the store, and
`Handler.step_move` that there is no other, over any dispatcher. The
texts of the answers are left out where nobody reads them.
-/
import Scintx.Server.Handlers

namespace Scintx.Server

open Scintx.Lib Scintx.Api Scintx.Store Scintx.Orchestrator Scintx.Workers

/-- The key is bound to a request with another hash. -/
def Differs (store : MemoryStore) (key hash : String) : Prop :=
  (store.idemHash.lookup key).getD "" ≠ "" ∧ hash ≠ "" ∧
    (store.idemHash.lookup key).getD "" ≠ hash

section Moves

variable {σ : Type} (d : Dispatcher σ) (ch : HandlerChoice) (p : σ) (w : World)

/-- The handler goes on from the first place to the second, and the state
`p` of the dispatcher and the world `w` become those between them. -/
inductive HandlerMove : Handler → σ → World → Handler → Prop
  | refused {p' : σ} {e : DispatchError} (key hash : String) (sub : Submission)
      (hres : d.reserve ch.ctxErr p w = (.error e, p')) :
      HandlerMove (.createReserve key hash sub) p' w
        (.answered (dispatchProblem "worker pool at capacity; retry later" e))
  | reserved {p' : σ} {tok : Nat} (key hash : String) (sub : Submission)
      (hres : d.reserve ch.ctxErr p w = (.ok tok, p')) :
      HandlerMove (.createReserve key hash sub) p' w (.createPut tok key hash sub)
  | notStored (tok : Nat) (key hash : String) (sub : Submission) {answer : Response}
      (herr : ch.storeErr ≠ none) :
      HandlerMove (.createPut tok key hash sub) p w (.createRelease tok answer)
  | conflict (tok : Nat) {key hash : String} (sub : Submission) {existing : Stored Submission}
      (hkey : key ≠ "") (hbound : w.store.bound key = some existing)
      (hdiffers : Differs w.store key hash) :
      HandlerMove (.createPut tok key hash sub) p w
        (.createRelease tok (writeProblem 409 "idempotency_conflict"
          "Idempotency-Key reused with a different request body"))
  | replayed (tok : Nat) {key hash : String} (sub : Submission) {existing : Stored Submission}
      (hkey : key ≠ "") (hbound : w.store.bound key = some existing)
      (hagrees : ¬ Differs w.store key hash) :
      HandlerMove (.createPut tok key hash sub) p w
        (.createRelease tok (writeAccepted (location existing.val.id) existing.val))
  | created (tok : Nat) {key : String} (hash : String) (sub : Submission)
      (hfree : key ≠ "" → w.store.bound key = none) :
      HandlerMove (.createPut tok key hash sub) p
        { w with store := w.store.bindSubmission key hash sub }
        (.createCommit tok key (cloneJSON sub))
  | commitFailed {p' : σ} {w' : World} {tok : Nat} (key : String) {sub : Submission}
      {e : DispatchError} {answer : Response}
      (hcommit : d.commit ch.now tok sub.id p w = (.error e, p', w')) :
      HandlerMove (.createCommit tok key sub) p' w' (.createAbandon tok key sub.id answer)
  | committed {p' : σ} {w' : World} {tok : Nat} (key : String) {sub : Submission}
      (hcommit : d.commit ch.now tok sub.id p w = (.ok (), p', w')) :
      HandlerMove (.createCommit tok key sub) p' w'
        (.answered (writeAccepted (location sub.id) sub))
  | abandoned (tok : Nat) (key id : String) (answer : Response) :
      HandlerMove (.createAbandon tok key id answer) p
        { w with store := (w.store.abandonSubmission id key).2 } (.createRelease tok answer)
  /-- An abandonment that fails is only logged. -/
  | notAbandoned (tok : Nat) (key id : String) (answer : Response) (herr : ch.storeErr ≠ none) :
      HandlerMove (.createAbandon tok key id answer) p w (.createRelease tok answer)
  | released (tok : Nat) (answer : Response) :
      HandlerMove (.createRelease tok answer) (d.release tok p) w (.answered answer)
  | notClaimed (id : String) {answer : Response} (herr : ch.storeErr ≠ none) :
      HandlerMove (.resumeClaim id) p w (.answered answer)
  | claimRefused (id : String) {store : MemoryStore} {e : StoreError}
      (hclaim : w.store.claimResume id = (.error e, store)) :
      HandlerMove (.resumeClaim id) p w (.resumeRefused id)
  | claimed {id : String} {sub : Submission} {store : MemoryStore}
      (hclaim : w.store.claimResume id = (.ok sub, store)) :
      HandlerMove (.resumeClaim id) p { w with store := store } (.resumeReserve id)
  | resumeRefused (id : String) {answer : Response} :
      HandlerMove (.resumeRefused id) p w (.answered answer)
  | resumeNotReserved {p' : σ} {e : DispatchError} (id : String)
      (hres : d.reserve ch.ctxErr p w = (.error e, p')) :
      HandlerMove (.resumeReserve id) p' w (.resumeUnmark id e)
  | resumeReserved {p' : σ} {tok : Nat} (id : String)
      (hres : d.reserve ch.ctxErr p w = (.ok tok, p')) :
      HandlerMove (.resumeReserve id) p' w (.resumeCommit tok id)
  | resumeFailed {p' : σ} {w' : World} {tok : Nat} {id : String} {e : DispatchError}
      (hcommit : d.commit ch.now tok id p w = (.error e, p', w')) :
      HandlerMove (.resumeCommit tok id) p' w' (.resumeRelease tok id e)
  | resumed {p' : σ} {w' : World} {tok : Nat} {id : String}
      (hcommit : d.commit ch.now tok id p w = (.ok (), p', w')) :
      HandlerMove (.resumeCommit tok id) p' w' (.resumeRead id)
  | resumeReleased (tok : Nat) (id : String) (e : DispatchError) :
      HandlerMove (.resumeRelease tok id e) (d.release tok p) w (.resumeUnmark id e)
  | unmarked (id : String) (e : DispatchError) {answer : Response} :
      HandlerMove (.resumeUnmark id e) p { w with store := w.store.releaseResume id }
        (.answered answer)
  | notUnmarked (id : String) (e : DispatchError) {answer : Response}
      (herr : ch.storeErr ≠ none) : HandlerMove (.resumeUnmark id e) p w (.answered answer)
  | read (id : String) {answer : Response} : HandlerMove (.resumeRead id) p w (.answered answer)
  | notAdjudicable (id : String) (req : AdjudicateRequest) {answer : Response} :
      HandlerMove (.adjudicateGet id req) p w (.answered answer)
  | adjudicable {id priorID : String} {req : AdjudicateRequest} {sub : Submission}
      (hreq : checkAdjudication req = .ok ()) (hget : w.store.getSubmission id = some sub)
      (hprior : adjudicable sub = .ok priorID) :
      HandlerMove (.adjudicateGet id req) p w (.adjudicatePrior sub priorID req)
  | noPrior (sub : Submission) (priorID : String) (req : AdjudicateRequest) {answer : Response} :
      HandlerMove (.adjudicatePrior sub priorID req) p w (.answered answer)
  | resolved {sub : Submission} {priorID : String} {req : AdjudicateRequest}
      {prior : PolicyDecision} (hprior : w.store.getDecision priorID = some prior) :
      HandlerMove (.adjudicatePrior sub priorID req) p w
        (.adjudicatePutDecision sub prior (adjudication req sub prior ch.randHex ch.now) req)
  | notFiled (sub : Submission) (prior dec : PolicyDecision) (req : AdjudicateRequest)
      {answer : Response} (herr : ch.storeErr ≠ none) :
      HandlerMove (.adjudicatePutDecision sub prior dec req) p w (.answered answer)
  | filed (sub : Submission) (prior dec : PolicyDecision) (req : AdjudicateRequest) :
      HandlerMove (.adjudicatePutDecision sub prior dec req) p
        { w with store := w.store.putDecision dec }
        (.adjudicatePutSubmission { sub with decisionID := some dec.id } prior dec req)
  | notOverruled (sub : Submission) (prior dec : PolicyDecision) (req : AdjudicateRequest)
      {answer : Response} (herr : ch.storeErr ≠ none) :
      HandlerMove (.adjudicatePutSubmission sub prior dec req) p w (.answered answer)
  | overruled (sub : Submission) (prior dec : PolicyDecision) (req : AdjudicateRequest) :
      HandlerMove (.adjudicatePutSubmission sub prior dec req) p
        { w with store := w.store.putSubmission sub } (.adjudicateEmit sub prior dec req)
  | told (sub : Submission) (prior dec : PolicyDecision) (req : AdjudicateRequest)
      {answer : Response} :
      HandlerMove (.adjudicateEmit sub prior dec req) p
        (w.emit ch.storeErr ch.randHex ch.now (resolvedEvent sub prior dec req)) (.answered answer)

end Moves

variable {σ : Type} {d : Dispatcher σ} {ch : HandlerChoice} {p p' : σ} {w w' : World}
  {h h' : Handler}

/-- A new submission is stored, or the key decides. -/
theorem move_createPut {tok : Nat} {key hash : String} {sub : Submission}
    (hs : (Handler.createPut tok key hash sub).step d ch p w = some (p', w', h')) :
    HandlerMove d ch p w (.createPut tok key hash sub) p' w' h' := by
  simp only [Handler.step] at hs
  split at hs
  · rename_i herr
    cases hs
    exact .notStored tok key hash sub (by simp [herr])
  · unfold MemoryStore.putSubmissionIdempotent at hs
    cases hbound : (if key ≠ "" then w.store.bound key else none) with
    | none =>
      simp only [hbound, Stored.copy_eq, Stored.val_of, Option.some.injEq, Prod.mk.injEq] at hs
      obtain ⟨rfl, rfl, rfl⟩ := hs
      refine .created tok hash sub fun hkey => ?_
      rwa [if_pos hkey] at hbound
    | some existing =>
      have hkey : key ≠ "" := by
        intro hempty
        rw [if_neg (fun hne => hne hempty)] at hbound
        cases hbound
      simp only [hbound] at hs
      rw [if_pos hkey] at hbound
      by_cases hdiffers : Differs w.store key hash <;> unfold Differs at hdiffers
      · rw [if_pos hdiffers] at hs
        cases hs
        exact .conflict tok sub hkey hbound hdiffers
      · rw [if_neg hdiffers] at hs
        simp only [Stored.copy_eq, Option.some.injEq, Prod.mk.injEq] at hs
        obtain ⟨rfl, rfl, rfl⟩ := hs
        exact .replayed tok sub hkey hbound hdiffers

theorem move_adjudicateGet {id : String} {req : AdjudicateRequest}
    (hs : (Handler.adjudicateGet id req).step d ch p w = some (p', w', h')) :
    HandlerMove d ch p w (.adjudicateGet id req) p' w' h' := by
  simp only [Handler.step] at hs
  split at hs <;> rename_i hreq
  · cases hs
    exact .notAdjudicable id req
  · split at hs
    · cases hs
      exact .notAdjudicable id req
    · split at hs <;> rename_i hget
      · cases hs
        exact .notAdjudicable id req
      · split at hs <;> rename_i hprior <;> cases hs
        · exact .notAdjudicable id req
        · exact .adjudicable hreq hget hprior

/-- **All that a step can do.** -/
theorem Handler.step_move (hs : h.step d ch p w = some (p', w', h')) :
    HandlerMove d ch p w h p' w' h' := by
  cases h with
  | createReserve key hash sub =>
    simp only [Handler.step] at hs
    split at hs <;> rename_i hres <;> cases hs
    · exact .refused key hash sub hres
    · exact .reserved key hash sub hres
  | createPut tok key hash sub => exact move_createPut hs
  | createCommit tok key sub =>
    simp only [Handler.step] at hs
    split at hs <;> rename_i hcommit <;> cases hs
    · exact .commitFailed key hcommit
    · exact .committed key hcommit
  | createAbandon tok key id answer =>
    cases hs
    split
    · exact .abandoned tok key id answer
    · rename_i herr
      exact .notAbandoned tok key id answer herr
  -- one way to go
  | createRelease | resumeRefused | resumeRelease | adjudicateEmit =>
    cases hs
    constructor
  | resumeClaim id =>
    simp only [Handler.step] at hs
    split at hs
    · rename_i herr
      cases hs
      exact .notClaimed id (by simp [herr])
    · split at hs <;> rename_i hclaim <;> cases hs
      · exact .claimRefused id hclaim
      · exact .claimed hclaim
  | resumeReserve id =>
    simp only [Handler.step] at hs
    split at hs <;> rename_i hres <;> cases hs
    · exact .resumeNotReserved id hres
    · exact .resumeReserved id hres
  | resumeCommit tok id =>
    simp only [Handler.step] at hs
    split at hs <;> rename_i hcommit <;> cases hs
    · exact .resumeFailed hcommit
    · exact .resumed hcommit
  | resumeUnmark id e =>
    cases hs
    split
    · exact .unmarked id e
    · rename_i herr
      exact .notUnmarked id e herr
  | resumeRead id =>
    simp only [Handler.step] at hs
    split at hs <;> cases hs <;> exact .read id
  | adjudicateGet id req => exact move_adjudicateGet hs
  | adjudicatePrior sub priorID req =>
    simp only [Handler.step] at hs
    split at hs
    · cases hs
      exact .noPrior sub priorID req
    · split at hs <;> rename_i hprior <;> cases hs
      · exact .noPrior sub priorID req
      · exact .resolved hprior
  | adjudicatePutDecision sub prior dec req =>
    simp only [Handler.step] at hs
    split at hs <;> rename_i herr <;> cases hs
    · exact .notFiled sub prior dec req (by simp [herr])
    · exact .filed sub prior dec req
  | adjudicatePutSubmission sub prior dec req =>
    simp only [Handler.step] at hs
    split at hs <;> rename_i herr <;> cases hs
    · exact .notOverruled sub prior dec req (by simp [herr])
    · exact .overruled sub prior dec req
  | answered answer => cases hs

/-- A dispatcher writes jobs, and nothing else of the store. -/
def WritesJobs (d : Dispatcher σ) : Prop :=
  ∀ now tok id p w, ∃ jobs, (d.commit now tok id p w).2.2 = w.setJobs jobs

theorem WritesJobs.commit (hd : WritesJobs d) {now : Time} {tok : Nat} {id : String}
    {e : Except DispatchError Unit} (h : d.commit now tok id p w = (e, p', w')) :
    ∃ jobs, w' = w.setJobs jobs := by
  obtain ⟨jobs, hjobs⟩ := hd now tok id p w
  rw [h] at hjobs
  exact ⟨jobs, hjobs⟩

end Scintx.Server
