/-
Scintx.Orchestrator.Copies — the records of submissions that a run reads,
holds and writes back.

A run never writes a field, it writes the whole record that it read at
some time before. What another party has stored in between is lost. But
only some fields ever change. A submission is what it was submitted as,
its IDENTITY: artifact, capabilities, policy, instant. `CopiesFrom` says
what one step does to the copies there are: each copy after it is one of
those before, up to the fields that may change. So whatever holds of the
identity of all copies goes on to hold (`CopiesFrom.all`), stale ones
included.

A step leaves the uploaded artifacts alone as well.
-/
import Scintx.Orchestrator.Lifecycle

namespace Scintx.Orchestrator

open Scintx.Lib Scintx.Api Scintx.Store

/-- What a submission was submitted as. -/
structure SubmissionIdentity where
  schemaVersion : String
  artifact : Artifact
  requestedCapabilities : List String
  policyRef : Option String
  createdAt : Time
  deriving DecidableEq

/-- The loaded content of an artifact is in no stored record. -/
def identityOf (sub : Submission) : SubmissionIdentity :=
  ⟨sub.schemaVersion, { sub.artifact with content := [] }, sub.requestedCapabilities,
    sub.policyRef, sub.createdAt⟩

/-- Two copies of one submission. -/
structure SameSubmission (sub sub' : Submission) : Prop where
  id : sub'.id = sub.id
  identity : identityOf sub' = identityOf sub

namespace SameSubmission

variable {a b c : Submission}

theorem refl (a : Submission) : SameSubmission a a := ⟨rfl, rfl⟩

theorem trans (h : SameSubmission a b) (h' : SameSubmission b c) : SameSubmission a c :=
  ⟨h'.id.trans h.id, h'.identity.trans h.identity⟩

/-- A stored copy. -/
theorem stored (a : Submission) : SameSubmission a (cloneJSON a) := ⟨rfl, rfl⟩

end SameSubmission

/-! ## Copies -/

/-- The copies there are: the one that a party holds, and those that are
stored. -/
def IsCopy (s : MemoryStore) (held : Option Submission) (sub : Submission) : Prop :=
  held = some sub ∨ ∃ id row, s.submissions.get? id = some row ∧ row.val = sub

/-- Every copy after the step was there before, up to the fields that
change. -/
structure CopiesFrom (s : MemoryStore) (held : Option Submission) (s' : MemoryStore)
    (held' : Option Submission) : Prop where
  artifacts : s'.artifacts = s.artifacts
  copies : ∀ sub', IsCopy s' held' sub' → ∃ sub, IsCopy s held sub ∧ SameSubmission sub sub'

section Copies

variable {s s' : MemoryStore} {held held' : Option Submission} {sub sub' : Submission}

theorem isCopy_of_getSubmission {id : String} (h : s.getSubmission id = some sub) :
    IsCopy s held sub := by
  obtain ⟨row, hrow, rfl⟩ := Option.map_eq_some_iff.mp h
  exact .inr ⟨id, row, hrow, row.copy_eq.symm⟩

namespace CopiesFrom

/-- A call that stores no submission. The party holds what it held, what
it has read, or nothing. -/
theorem keep (hsub : s'.submissions = s.submissions) (hart : s'.artifacts = s.artifacts)
    (hheld : ∀ sub', held' = some sub' → ∃ sub, IsCopy s held sub ∧ SameSubmission sub sub') :
    CopiesFrom s held s' held' := by
  refine ⟨hart, fun sub' h => ?_⟩
  rcases h with h | ⟨id, row, hrow, rfl⟩
  · exact hheld sub' h
  · rw [hsub] at hrow
    exact ⟨row.val, .inr ⟨id, row, hrow, rfl⟩, .refl _⟩

theorem drop (hsub : s'.submissions = s.submissions) (hart : s'.artifacts = s.artifacts) :
    CopiesFrom s held s' none :=
  .keep hsub hart fun _ h => by cases h

theorem hold (hsub : s'.submissions = s.submissions) (hart : s'.artifacts = s.artifacts)
    (hsame : SameSubmission sub sub') : CopiesFrom s (some sub) s' (some sub') :=
  .keep hsub hart fun _ h => ⟨sub, .inl rfl, Option.some.inj h ▸ hsame⟩

theorem read {id : String} (hget : s.getSubmission id = some sub)
    (hsame : SameSubmission sub sub') : CopiesFrom s held s (some sub') :=
  .keep rfl rfl fun _ h => ⟨sub, isCopy_of_getSubmission hget, Option.some.inj h ▸ hsame⟩

/-- A copy is stored, brought up to date. -/
theorem write (hcopy : IsCopy s held sub) (hput : s'.submissions = s.submissions.put (.of sub'))
    (hart : s'.artifacts = s.artifacts) (hsame : SameSubmission sub sub')
    (hheld : ∀ x, held' = some x → SameSubmission sub' x) : CopiesFrom s held s' held' := by
  refine ⟨hart, fun x h => ?_⟩
  rcases h with h | ⟨id, row, hrow, rfl⟩
  · exact ⟨sub, hcopy, hsame.trans (hheld x h)⟩
  · rw [hput, SubmissionTable.get?_put_of] at hrow
    split at hrow
    · cases hrow
      exact ⟨sub, hcopy, hsame.trans (.stored sub')⟩
    · exact ⟨row.val, .inr ⟨id, row, hrow, rfl⟩, .refl _⟩

/-- The record that the party holds is stored. -/
theorem put (hput : s'.submissions = s.submissions.put (.of sub'))
    (hart : s'.artifacts = s.artifacts) (hsame : SameSubmission sub sub')
    (hheld : ∀ x, held' = some x → SameSubmission sub' x) :
    CopiesFrom s (some sub) s' held' :=
  .write (.inl rfl) hput hart hsame hheld

/-- What holds of an identity holds of all copies, as before. -/
theorem all {P : String → SubmissionIdentity → Prop} (h : CopiesFrom s held s' held')
    (hall : ∀ sub, IsCopy s held sub → P sub.id (identityOf sub)) :
    ∀ sub, IsCopy s' held' sub → P sub.id (identityOf sub) := by
  intro sub' hcopy
  obtain ⟨sub, hfrom, hsame⟩ := h.copies sub' hcopy
  rw [hsame.id, hsame.identity]
  exact hall sub hfrom

end CopiesFrom

end Copies

/-! ## Runs -/

@[simp] theorem World.emit_artifacts (w : World) (storeErr : Option String) (randHex : String)
    (now : Time) (e : Emission) :
    (w.emit storeErr randHex now e).store.artifacts = w.store.artifacts := by
  simp only [World.emit]
  split <;> rfl

section Given

variable [GoStd] {o : Orchestrator} {env : RunEnv} {ch : Choice}

/-- Goroutines write results, and nothing of decisions or artifacts. -/
theorem goStep_records {subID : String} {artifact : Artifact} {i : Nat} {sel : SelectedProvider}
    {w w' : World} {ids ids' : List String} {pc pc' : GoPc}
    (h : goStep o env ch subID artifact i sel w ids pc = some (w', ids', pc')) :
    w'.store.artifacts = w.store.artifacts ∧ w'.store.decisions = w.store.decisions := by
  cases goStep_move h with
  | start | reported => exact ⟨World.emit_artifacts .., World.emit_decisions ..⟩
  | _ => exact ⟨rfl, rfl⟩

/-- **A run writes back what it has read.** -/
theorem pcStep_copies {subID : String} {w w' : World} {pc pc' : Pc} {out : List Emission}
    (h : pcStep o env ch subID w pc = some (w', pc', out)) :
    CopiesFrom w.store pc.copy w'.store pc'.copy := by
  rcases pcStep_cases h with hmove | ⟨err, rfl, hloss⟩
  · cases hmove with
    | cancelled | start | cancelledEmpty | join | cancelledJoined | joined | notFound
    | disappeared | interruptedMissing | interruptedLate => exact .drop rfl rfl
    | load hget => exact .read hget (.refl _)
    | reload ids hget => exact .read hget ⟨rfl, rfl⟩
    | interruptedLoad cause hget => exact .read hget (.refl _)
    | mark sub => exact .put rfl rfl ⟨rfl, rfl⟩ fun _ hx => Option.some.inj hx ▸ .refl _
    | findings sub | collect sub =>
      exact .put rfl rfl (.refl sub) fun _ hx => Option.some.inj hx ▸ .refl _
    | unreadable | ineligible | select | noProvider | weigh | merge | mergeStored | rule
    | noRuling => exact .hold rfl rfl (.refl _)
    | goroutine hgo hstep =>
      exact .hold (goStep_frame hstep).2 (goStep_records hstep).1 (.refl _)
    | deferring | deciding => exact .hold rfl rfl ⟨rfl, rfl⟩
    | deferred | failed | interrupted =>
      exact .put rfl rfl ⟨rfl, rfl⟩ fun _ hx => by cases hx
    | completed sub reason decisionID =>
      have hsame : SameSubmission sub (settled sub reason decisionID ch.now) := by
        unfold settled
        simp only
        split <;> exact ⟨rfl, rfl⟩
      exact .put rfl rfl hsame fun _ hx => by cases hx
  · cases hloss with
    | merge => exact .hold rfl rfl (.refl _)
    | _ => exact .drop rfl rfl

theorem Run.step_copies {w w' : World} {r r' : Run} (h : r.step o env ch w = some (w', r')) :
    CopiesFrom w.store r.pc.copy w'.store r'.pc.copy := by
  cases Run.step_move h with
  | emit =>
    refine .keep (World.emit_submissions ..) (World.emit_artifacts ..) fun sub hsub => ?_
    exact ⟨sub, .inl hsub, .refl sub⟩
  | call _ hcall => exact pcStep_copies hcall

end Given

end Scintx.Orchestrator
