/-
Scintx.Orchestrator.Lifecycle — what a run of `Process` can do to the
status of its submission.

The machine of `Scintx.Orchestrator.Process` has nineteen places and
carries whole records; about the STATUS of the submission it knows far
less. `Stage` is what it knows: nothing yet, a copy about to be marked
running, a copy of some status to be written back, a decision to give
up. `Stage.Step` is all that can happen between two stages and the
stored status, and `Run.step_stage` says that every step of the machine
is one of these. Whoever reasons about several runs, handlers and
workers on one store reasons about `Stage.Step` and never about the
machine.

Every write is UNGUARDED: `Stage.Step` lets a run write whatever is
stored at that moment. Nothing here excludes a second run; that is for
the system around it.
-/
import Scintx.Orchestrator.Moves

namespace Scintx.Orchestrator

open Scintx.Lib Scintx.Api Scintx.Store

/-! ## Stages -/

inductive Stage where
  /-- Nothing was read. -/
  | fresh
  /-- The record was read, to be written back as running. -/
  | starting
  /-- Marked running; a copy of the given status is held for writing. -/
  | working (copy : Option SubmissionStatus)
  /-- The context was found cancelled. -/
  | interrupted
  /-- The record was read, to be written back as failed. -/
  | failing
  /-- No store call on the submission follows. -/
  | done
  deriving DecidableEq, Repr

/-- `Step wrote stored st stored' st'`: the stored status and the stage
before and after. `wrote` says whether the record was written. -/
inductive Stage.Step : Bool → Option SubmissionStatus → Stage → Option SubmissionStatus → Stage →
    Prop
  | idle (stored : Option SubmissionStatus) (st : Stage) : Step false stored st stored st
  | interruptFresh (stored : Option SubmissionStatus) : Step false stored .fresh stored .interrupted
  | interrupt (stored copy : Option SubmissionStatus) :
      Step false stored (.working copy) stored .interrupted
  | missing (st : Stage) : Step false none st none .done
  | read (s : SubmissionStatus) : Step false (some s) .fresh (some s) .starting
  | start (stored : Option SubmissionStatus) :
      Step true stored .starting (some .running) (.working (some .running))
  | drop (stored copy : Option SubmissionStatus) :
      Step false stored (.working copy) stored (.working none)
  | reread (s : SubmissionStatus) :
      Step false (some s) (.working none) (some s) (.working (some s))
  | save (stored : Option SubmissionStatus) (s : SubmissionStatus) :
      Step true stored (.working (some s)) (some s) (.working (some s))
  | settle (stored : Option SubmissionStatus) (s f : SubmissionStatus) (hf : isTerminal f = true) :
      Step true stored (.working (some s)) (some f) .done
  | yield (s : SubmissionStatus) (hs : isTerminal s = true) :
      Step false (some s) .interrupted (some s) .done
  | seize (s : SubmissionStatus) (hs : isTerminal s = false) :
      Step false (some s) .interrupted (some s) .failing
  | fail (stored : Option SubmissionStatus) : Step true stored .failing (some .failed) .done

/-- Only a run with work to do writes. -/
theorem Stage.Step.not_done {stored stored' : Option SubmissionStatus} {st st' : Stage}
    (h : Stage.Step true stored st stored' st') : st ≠ .done := by
  cases h <;> simp

/-- The submission is missing or has come to rest. -/
def Final (stored : Option SubmissionStatus) : Prop :=
  ∀ s, stored = some s → isTerminal s = true

instance (stored : Option SubmissionStatus) : Decidable (Final stored) :=
  match stored with
  | none => .isTrue nofun
  | some s =>
    decidable_of_iff (isTerminal s = true) ⟨fun h _ hs => Option.some.inj hs ▸ h, fun h => h s rfl⟩

theorem final_none : Final none := nofun

theorem final_some {s : SubmissionStatus} (h : isTerminal s = true) : Final (some s) :=
  fun _ hs => Option.some.inj hs ▸ h

/-- A run that ends leaves its submission missing or at rest. -/
theorem Stage.Step.final {wrote : Bool} {stored stored' : Option SubmissionStatus} {st : Stage}
    (h : Stage.Step wrote stored st stored' .done) (hst : st ≠ .done) : Final stored' := by
  cases h with
  | idle => exact absurd rfl hst
  | missing => exact final_none
  | settle _ s f hf => exact final_some hf
  | yield s hs => exact final_some hs
  | fail => exact final_some rfl

/-- A run that ends does not leave its submission running. -/
theorem Stage.Step.not_running {wrote : Bool} {stored stored' : Option SubmissionStatus}
    {st : Stage} (h : Stage.Step wrote stored st stored' .done) (hst : st ≠ .done) :
    stored' ≠ some .running := by
  intro hrun
  cases h.final hst .running hrun

/-- The stored status a run at this stage relies on. -/
def Stage.expects : Stage → Option SubmissionStatus
  | .working _ => some .running
  | _ => none

def Pc.stage : Pc → Stage
  | .checkCtx | .getSubmission => .fresh
  | .putRunning _ => .starting
  | .hydrate sub | .checkCtxEmpty sub | .putResultIDs sub | .getResults sub => .working sub.status
  | .fanOut _ _ _ _ | .checkCtxJoined _ | .getSubmissionAgain _ => .working none
  | .putMerged sub _ _ | .evaluate sub _ _ => .working sub.status
  | .putDecision sub _ | .putDeferred sub _ => .working sub.status
  | .complete sub _ _ | .putFailed sub _ => .working sub.status
  | .interruptedGet _ => .interrupted
  | .interruptedPut _ _ => .failing
  | .returned _ => .done

theorem runFinished_done {r : Run} (h : runFinished r = true) : r.pc.stage = .done := by
  unfold runFinished at h
  split at h
  · rename_i hpc _
    rw [hpc]
    rfl
  · cases h

/-- The record the run holds. -/
def Pc.copy : Pc → Option Submission
  | .putRunning sub | .hydrate sub | .checkCtxEmpty sub | .fanOut sub _ _ _ => some sub
  | .putResultIDs sub | .getResults sub | .putMerged sub _ _ | .evaluate sub _ _ => some sub
  | .putDecision sub _ | .putDeferred sub _ => some sub
  | .complete sub _ _ | .putFailed sub _ | .interruptedPut sub _ => some sub
  | .checkCtx | .getSubmission | .checkCtxJoined _ | .getSubmissionAgain _ => none
  | .interruptedGet _ | .returned _ => none

/-- What the run holds is a copy of its own submission. -/
def Pc.Owns (subID : String) (pc : Pc) : Prop :=
  ∀ sub, pc.copy = some sub → sub.id = subID

def Run.Owns (r : Run) : Prop := r.pc.Owns r.subID

theorem Pc.owns_of_copy {subID : String} {pc : Pc} {sub : Submission} (hcopy : pc.copy = some sub)
    (hid : sub.id = subID) : pc.Owns subID := by
  intro s hs
  rw [hcopy, Option.some.injEq] at hs
  exact hs ▸ hid

theorem Pc.owns_of_none {subID : String} {pc : Pc} (hcopy : pc.copy = none) : pc.Owns subID := by
  intro s hs
  rw [hcopy] at hs
  cases hs

/-- The stored status of a submission. -/
def World.status (w : World) (id : String) : Option SubmissionStatus :=
  w.store.status id

/-- The stored record of a submission. -/
def World.record (w : World) (id : String) : Option (Stored Submission) :=
  w.store.submissions.get? id

theorem World.status_of_record {w w' : World} {id : String} (h : w'.record id = w.record id) :
    w'.status id = w.status id :=
  congrArg (Option.map _) h

/-! ## Frames -/

/-- A world change outside the submission table keeps what other parts of
the gateway rely on. -/
structure World.SameAdmission (w w' : World) : Prop where
  jobs : w'.store.jobs = w.store.jobs
  idempotency : w'.store.idempotency = w.store.idempotency
  idemHash : w'.store.idemHash = w.store.idemHash

theorem World.SameAdmission.refl (w : World) : w.SameAdmission w := ⟨rfl, rfl, rfl⟩

section Emit

variable (w : World) (storeErr : Option String) (randHex : String) (now : Time) (e : Emission)

@[simp] theorem World.emit_submissions :
    (w.emit storeErr randHex now e).store.submissions = w.store.submissions := by
  simp only [World.emit]
  split <;> rfl

@[simp] theorem World.emit_decisions :
    (w.emit storeErr randHex now e).store.decisions = w.store.decisions := by
  simp only [World.emit]
  split <;> rfl

theorem World.emit_sameAdmission : w.SameAdmission (w.emit storeErr randHex now e) := by
  simp only [World.emit]
  split <;> exact ⟨rfl, rfl, rfl⟩

end Emit

theorem World.status_of_submissions {w w' : World}
    (h : w'.store.submissions = w.store.submissions) (id : String) :
    w'.status id = w.status id :=
  MemoryStore.status_of_submissions h id

/-- The stored statuses after a record was written. -/
theorem World.status_put {w w' : World} {sub : Submission}
    (h : w'.store.submissions = w.store.submissions.put (.of sub)) (id : String) :
    w'.status id = if id = sub.id then some sub.status else w.status id := by
  rw [World.status, World.status, ← MemoryStore.status_putSubmission]
  exact MemoryStore.status_of_submissions h id

theorem World.status_put_self {w w' : World} {sub : Submission}
    (h : w'.store.submissions = w.store.submissions.put (.of sub)) :
    w'.status sub.id = some sub.status := by
  rw [World.status_put h, if_pos rfl]

theorem World.record_put {w w' : World} {sub : Submission}
    (h : w'.store.submissions = w.store.submissions.put (.of sub)) (id : String)
    (hne : id ≠ sub.id) :
    w'.record id = w.record id := by
  rw [World.record, World.record, h, SubmissionTable.get?_put_of, if_neg hne]

theorem getSubmission_some {w : World} {id : String} {sub : Submission}
    (h : w.store.getSubmission id = some sub) : sub.id = id ∧ w.status id = some sub.status := by
  rw [MemoryStore.getSubmission, Option.map_eq_some_iff] at h
  obtain ⟨row, hrow, rfl⟩ := h
  rw [Stored.copy_eq, World.status, MemoryStore.status, hrow]
  exact ⟨SubmissionTable.id_of_get? hrow, rfl⟩

theorem getSubmission_none {w : World} {id : String} (h : w.store.getSubmission id = none) :
    w.status id = none := by
  rw [MemoryStore.getSubmission, Option.map_eq_none_iff] at h
  rw [World.status, MemoryStore.status, h]
  rfl

/-! ## Every step of the machine is a step between stages -/

/-- One step of a run on `subID`, seen from outside. -/
structure StagedStep (subID : String) (w : World) (st : Stage) (w' : World) (st' : Stage) :
    Prop where
  admission : w.SameAdmission w'
  step : ∃ wrote, Stage.Step wrote (w.status subID) st (w'.status subID) st' ∧
    match wrote with
    | false => w'.store.submissions = w.store.submissions
    | true => ∃ sub, sub.id = subID ∧
        w'.store.submissions = w.store.submissions.put (.of sub)

theorem StagedStep.quiet {subID : String} {w w' : World} {st st' : Stage}
    (hadm : w.SameAdmission w') (hsame : w'.store.submissions = w.store.submissions)
    (h : Stage.Step false (w.status subID) st (w.status subID) st') :
    StagedStep subID w st w' st' :=
  ⟨hadm, false, by rwa [World.status_of_submissions hsame], hsame⟩

theorem StagedStep.same {subID : String} {w : World} {st st' : Stage}
    (h : Stage.Step false (w.status subID) st (w.status subID) st') :
    StagedStep subID w st w st' :=
  .quiet (.refl w) rfl h

theorem StagedStep.written {w w' : World} {st st' : Stage} (sub : Submission)
    (hadm : w.SameAdmission w')
    (hput : w'.store.submissions = w.store.submissions.put (.of sub))
    (h : Stage.Step true (w.status sub.id) st (some sub.status) st') :
    StagedStep sub.id w st w' st' := by
  refine ⟨hadm, true, ?_, sub, rfl, hput⟩
  rwa [World.status_put hput, if_pos rfl]

/-- Other submissions are left alone. -/
theorem StagedStep.others {subID id : String} {w w' : World} {st st' : Stage}
    (h : StagedStep subID w st w' st') (hne : id ≠ subID) : w'.record id = w.record id := by
  obtain ⟨-, wrote, -, hwrote⟩ := h
  cases wrote with
  | false => rw [World.record, World.record, hwrote]
  | true =>
    obtain ⟨sub, rfl, hput⟩ := hwrote
    exact World.record_put hput id hne

section Given

variable [GoStd] {o : Orchestrator} {env : RunEnv} {ch : Choice}

/-- Goroutines do not touch submissions. -/
theorem goStep_frame {subID : String} {artifact : Artifact} {i : Nat} {sel : SelectedProvider}
    {w w' : World} {ids ids' : List String} {pc pc' : GoPc}
    (h : goStep o env ch subID artifact i sel w ids pc = some (w', ids', pc')) :
    w.SameAdmission w' ∧ w'.store.submissions = w.store.submissions := by
  cases goStep_move h with
  | start | reported => exact ⟨World.emit_sameAdmission .., World.emit_submissions ..⟩
  | cached | stored => exact ⟨⟨rfl, rfl, rfl⟩, rfl⟩
  | _ => exact ⟨.refl w, rfl⟩

theorem PcMove.stage {subID : String} {w w' : World} {pc pc' : Pc} {out : List Emission}
    (howns : pc.Owns subID) (h : PcMove o env ch subID w pc w' pc' out) :
    pc'.Owns subID ∧ StagedStep subID w pc.stage w' pc'.stage := by
  cases h with
  | cancelled hcan => exact ⟨Pc.owns_of_none rfl, .same (.interruptFresh _)⟩
  | start | join | joined => exact ⟨Pc.owns_of_none rfl, .same (.idle _ _)⟩
  | cancelledEmpty | cancelledJoined => exact ⟨Pc.owns_of_none rfl, .same (.interrupt _ _)⟩
  | notFound hget | disappeared ids hget | interruptedMissing cause hget =>
    refine ⟨Pc.owns_of_none rfl, .same ?_⟩
    rw [getSubmission_none hget]
    exact .missing _
  | load hget =>
    obtain ⟨hid, hstatus⟩ := getSubmission_some hget
    refine ⟨Pc.owns_of_copy rfl hid, .same ?_⟩
    rw [hstatus]
    exact .read _
  | reload ids hget =>
    obtain ⟨hid, hstatus⟩ := getSubmission_some hget
    refine ⟨Pc.owns_of_copy rfl hid, .same ?_⟩
    rw [hstatus]
    exact .reread _
  | interruptedLate cause hget hterm =>
    refine ⟨Pc.owns_of_none rfl, .same ?_⟩
    rw [(getSubmission_some hget).2]
    exact .yield _ hterm
  | interruptedLoad cause hget hopen =>
    obtain ⟨hid, hstatus⟩ := getSubmission_some hget
    refine ⟨Pc.owns_of_copy rfl hid, .same ?_⟩
    rw [hstatus]
    exact .seize _ hopen
  | mark sub =>
    obtain rfl := howns sub rfl
    exact ⟨Pc.owns_of_copy rfl rfl,
      .written { sub with status := .running } ⟨rfl, rfl, rfl⟩ rfl (.start _)⟩
  | unreadable | ineligible | noProvider | weigh | merge | rule | noRuling =>
    exact ⟨Pc.owns_of_copy rfl (howns _ rfl), .same (.idle _ _)⟩
  | select => exact ⟨Pc.owns_of_copy rfl (howns _ rfl), .same (.drop _ _)⟩
  | goroutine hgo hstep =>
    obtain ⟨hadm, hsame⟩ := goStep_frame hstep
    exact ⟨Pc.owns_of_copy rfl (howns _ rfl), .quiet hadm hsame (.idle _ _)⟩
  | findings sub | collect sub =>
    obtain rfl := howns sub rfl
    exact ⟨Pc.owns_of_copy rfl rfl, .written sub ⟨rfl, rfl, rfl⟩ rfl (.save _ _)⟩
  | mergeStored sub | deferring sub | deciding sub =>
    exact ⟨Pc.owns_of_copy rfl (howns sub rfl), .quiet ⟨rfl, rfl, rfl⟩ rfl (.idle _ _)⟩
  | deferred sub decision =>
    obtain rfl := howns sub rfl
    exact ⟨Pc.owns_of_none rfl,
      .written (Orchestrator.deferred sub decision) ⟨rfl, rfl, rfl⟩ rfl (.settle _ _ .deferred rfl)⟩
  | completed sub reason decisionID =>
    obtain rfl : (settled sub reason decisionID ch.now).id = subID :=
      settled_id.trans (howns sub rfl)
    refine ⟨Pc.owns_of_none rfl, .written (settled sub reason decisionID ch.now)
      ⟨rfl, rfl, rfl⟩ rfl ?_⟩
    rw [settled_status]
    exact .settle _ _ .completed rfl
  | failed sub e =>
    obtain rfl := howns sub rfl
    exact ⟨Pc.owns_of_none rfl, .written (ended sub .failed .failed ch.now)
      ⟨rfl, rfl, rfl⟩ rfl (.settle _ _ .failed rfl)⟩
  | interrupted sub cause =>
    obtain rfl := howns sub rfl
    exact ⟨Pc.owns_of_none rfl, .written (ended sub .failed .interrupted ch.now)
      ⟨rfl, rfl, rfl⟩ rfl (.fail _)⟩

theorem pcStep_stage (hstore : ch.storeErr = none) {subID : String} {w w' : World} {pc pc' : Pc}
    {out : List Emission} (howns : pc.Owns subID)
    (h : pcStep o env ch subID w pc = some (w', pc', out)) :
    pc'.Owns subID ∧ StagedStep subID w pc.stage w' pc'.stage :=
  (pcStep_move hstore h).stage howns

/-- **The machine refines the stages.** A step of a run whose store call
does not fail keeps the run's copy its own and is a step between stages;
an emission is none at all. -/
theorem Run.step_stage (hstore : ch.storeErr = none) {w w' : World} {r r' : Run}
    (howns : r.Owns) (h : r.step o env ch w = some (w', r')) :
    r'.subID = r.subID ∧ r'.Owns ∧ StagedStep r.subID w r.pc.stage w' r'.pc.stage := by
  cases Run.step_move h with
  | emit =>
    exact ⟨rfl, howns, .quiet (World.emit_sameAdmission ..) (World.emit_submissions ..)
      (.idle _ _)⟩
  | call _ hcall => exact ⟨rfl, pcStep_stage hstore howns hcall⟩

end Given

end Scintx.Orchestrator
