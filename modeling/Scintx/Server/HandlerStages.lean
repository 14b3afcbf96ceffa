/-
Scintx.Server.HandlerStages — what a handler can do to submissions and
to the dispatcher.

As with runs, a handler has many places and the rest of the gateway
cares about few: is an id drawn that is not stored yet, is a stored
submission waiting to be admitted, is a deferred one claimed, is a
completed one about to be written back. `HStage` is that, and
`HandlerStep` lists every step between two of them TOGETHER with the
store or dispatcher call it makes. `Handler.step_stage` says the list is
complete, over any dispatcher.
-/
import Scintx.Orchestrator.Lifecycle
import Scintx.Server.HandlerMoves

namespace Scintx.Server

open Scintx.Lib Scintx.Api Scintx.Store Scintx.Orchestrator Scintx.Workers

inductive HStage where
  | idle
  /-- A new submission, not stored yet. -/
  | pending (id : String)
  /-- Stored as accepted, to be committed. -/
  | admitting (id : String)
  /-- Stored as accepted, the commit failed. -/
  | abandoning (id : String)
  /-- About to call `ClaimResume`. -/
  | claiming (id : String)
  /-- Claimed by `ClaimResume`, to be submitted. -/
  | resuming (id : String)
  /-- Claimed by `ClaimResume`, the submission to the pool failed. -/
  | reverting (id : String)
  /-- A copy of the given status, to be written back. -/
  | adjudicating (id : String) (copy : SubmissionStatus)
  deriving DecidableEq, Repr

def Handler.stage : Handler → HStage
  | .createReserve _ _ sub | .createPut _ _ _ sub => .pending sub.id
  | .createCommit _ _ sub => .admitting sub.id
  | .createAbandon _ _ id _ => .abandoning id
  | .resumeClaim id => .claiming id
  | .resumeReserve id | .resumeCommit _ id => .resuming id
  | .resumeRelease _ id _ | .resumeUnmark id _ => .reverting id
  | .adjudicatePrior sub _ _ | .adjudicatePutDecision sub _ _ _ => .adjudicating sub.id sub.status
  | .adjudicatePutSubmission sub _ _ _ => .adjudicating sub.id sub.status
  | .createRelease _ _ | .resumeRefused _ | .resumeRead _ => .idle
  | .adjudicateGet _ _ | .adjudicateEmit _ _ _ _ | .answered _ => .idle

theorem handler_of_claiming {h : Handler} {id : String} (hs : h.stage = .claiming id) :
    h = .resumeClaim id := by
  cases h <;> cases hs
  rfl

/-- The stored submission that nobody but the handler will go on with. -/
def HStage.holder : HStage → Option String
  | .admitting id | .abandoning id | .resuming id | .reverting id => some id
  | _ => none

/-- The stored status the handler relies on. -/
def HStage.expects : HStage → Option (String × Option SubmissionStatus)
  | .admitting id | .abandoning id => some (id, some .accepted)
  | .resuming id | .reverting id => some (id, some .running)
  | .adjudicating id _ => some (id, some .completed)
  | _ => none

/-- The id of a submission that is not stored yet. -/
def HStage.draws : HStage → Option String
  | .pending id => some id
  | _ => none

/-- A submission that a handler is about to store is new. -/
def Handler.Fresh : Handler → Prop
  | .createReserve _ _ sub | .createPut _ _ _ sub => sub.status = .accepted
  | _ => True

section Steps

variable {σ : Type} (d : Dispatcher σ) (p : σ) (w : World)

/-- Every step of a handler, between stages, with its call. -/
inductive HandlerStep : HStage → σ → World → HStage → Prop
  | quiet {w' : World} {st : HStage} (hadm : w.SameAdmission w')
      (hsame : w'.store.submissions = w.store.submissions) : HandlerStep st p w' st
  | drop {id : String} : HandlerStep (.pending id) p w .idle
  | letGo {id : String} {c : SubmissionStatus} : HandlerStep (.adjudicating id c) p w .idle
  | refused {id : String} : HandlerStep (.claiming id) p w .idle
  | reserve {p' : σ} {st : HStage} {ctxErr : Option String} {tok : Nat}
      (h : d.reserve ctxErr p w = (.ok tok, p')) : HandlerStep st p' w st
  | refuse {p' : σ} {id : String} {ctxErr : Option String} {e : DispatchError}
      (h : d.reserve ctxErr p w = (.error e, p')) : HandlerStep (.pending id) p' w .idle
  | refuseResume {p' : σ} {id : String} {ctxErr : Option String} {e : DispatchError}
      (h : d.reserve ctxErr p w = (.error e, p')) :
      HandlerStep (.resuming id) p' w (.reverting id)
  | create {key hash : String} {sub : Submission} (hstatus : sub.status = .accepted) :
      HandlerStep (.pending sub.id) p { w with store := w.store.bindSubmission key hash sub }
        (.admitting sub.id)
  | commit {p' : σ} {w' : World} {id : String} {st : HStage} {now : Time} {tok : Nat}
      (hst : st = .admitting id ∨ st = .resuming id)
      (h : d.commit now tok id p w = (.ok (), p', w')) : HandlerStep st p' w' .idle
  | commitFailed {p' : σ} {w' : World} {id : String} {now : Time} {tok : Nat}
      {e : DispatchError} (h : d.commit now tok id p w = (.error e, p', w')) :
      HandlerStep (.admitting id) p' w' (.abandoning id)
  | resumeFailed {p' : σ} {w' : World} {id : String} {now : Time} {tok : Nat}
      {e : DispatchError} (h : d.commit now tok id p w = (.error e, p', w')) :
      HandlerStep (.resuming id) p' w' (.reverting id)
  | abandon {id key : String} :
      HandlerStep (.abandoning id) p { w with store := (w.store.abandonSubmission id key).2 } .idle
  | release {st : HStage} {tok : Nat} : HandlerStep st (d.release tok p) w st
  | claim {id : String} {sub : Submission} {store : MemoryStore}
      (h : w.store.claimResume id = (.ok sub, store)) :
      HandlerStep (.claiming id) p { w with store := store } (.resuming id)
  | unclaim {id : String} :
      HandlerStep (.reverting id) p { w with store := w.store.releaseResume id } .idle
  | adopt {id : String} (h : w.status id = some .completed) :
      HandlerStep .idle p w (.adjudicating id .completed)
  | resolve {sub : Submission} :
      HandlerStep (.adjudicating sub.id sub.status) p
        { w with store := w.store.putSubmission sub } .idle

end Steps

variable {σ : Type} {d : Dispatcher σ} {ch : HandlerChoice}

/-- **Handlers refine their stages.** -/
theorem Handler.step_stage (hstore : ch.storeErr = none) {p p' : σ} {w w' : World}
    {h h' : Handler} (hfresh : h.Fresh) (hstep : h.step d ch p w = some (p', w', h')) :
    h'.Fresh ∧ HandlerStep d p w h.stage p' w' h'.stage := by
  cases Handler.step_move hstep with
  | refused key hash sub hres => exact ⟨trivial, .refuse hres⟩
  | reserved key hash sub hres => exact ⟨hfresh, .reserve hres⟩
  | conflict | replayed => exact ⟨trivial, .drop⟩
  | created => exact ⟨trivial, .create hfresh⟩
  | commitFailed key hcommit => exact ⟨trivial, .commitFailed hcommit⟩
  | committed key hcommit => exact ⟨trivial, .commit (.inl rfl) hcommit⟩
  | abandoned => exact ⟨trivial, .abandon⟩
  | released | resumeReleased => exact ⟨trivial, .release⟩
  | claimRefused => exact ⟨trivial, .refused⟩
  | claimed hclaim => exact ⟨trivial, .claim hclaim⟩
  | resumeNotReserved id hres => exact ⟨trivial, .refuseResume hres⟩
  | resumeReserved id hres => exact ⟨trivial, .reserve hres⟩
  | resumeFailed hcommit => exact ⟨trivial, .resumeFailed hcommit⟩
  | resumed hcommit => exact ⟨trivial, .commit (.inr rfl) hcommit⟩
  | unmarked => exact ⟨trivial, .unclaim⟩
  | resumeRefused | read | notAdjudicable | resolved => exact ⟨trivial, .quiet (.refl w) rfl⟩
  | adjudicable hreq hget hprior =>
    obtain ⟨rfl, hstatus⟩ := getSubmission_some hget
    have hcompleted := adjudicable_ok hprior
    refine ⟨trivial, ?_⟩
    simp only [Handler.stage, hcompleted]
    exact .adopt (hstatus.trans (congrArg some hcompleted))
  | noPrior => exact ⟨trivial, .letGo⟩
  | filed => exact ⟨trivial, .quiet ⟨rfl, rfl, rfl⟩ rfl⟩
  | overruled => exact ⟨trivial, .resolve⟩
  | told =>
    exact ⟨trivial, .quiet (World.emit_sameAdmission ..) (World.emit_submissions ..)⟩
  | notStored | notAbandoned | notClaimed | notUnmarked | notFiled | notOverruled =>
    exact absurd hstore ‹_›

end Scintx.Server
