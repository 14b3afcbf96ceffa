/-
Scintx.System.Rulings — the decisions that records name.

A record of a submission names a decision by its id. `Judged` says that
the decision is filed, that it is about this submission and one that may
be taken on it, and that it is final if the record is completed with a
decision. Nobody writes a field: runs and resolutions write whole records
back that they have read some time before. So `Judged` is about every
copy of a record, in the store or in the hands of a thread, and a step of
a run (`pcStep_judged`) or of a handler (`Handler.step_judged`) keeps it,
because the decision that a copy names was filed by whoever put the name
there, for the copy at hand.

No store call is assumed to succeed. A decision that is filed has JSON
and an id that is not taken (`isNew`), which is 64 random bits and a
clock reading.
-/
import Scintx.System.Adjudication
import Scintx.System.Identity

namespace Scintx.System

open Scintx.Lib Scintx.Api Scintx.Store Scintx.Orchestrator Scintx.Workers Scintx.Server

/-! ## Records and the decisions they name

`G x dec` says that `dec` is a decision that may be taken on a
submission that was submitted as `x`. -/

section Judged

variable (G : SubmissionIdentity → PolicyDecision → Prop)

structure Filed (s : MemoryStore) (sub : Submission) (id : String) (dec : PolicyDecision) :
    Prop where
  get : s.getDecision id = some dec
  about : dec.submissionID = sub.id
  ruled : G (identityOf sub) dec

/-- The decision that a copy of a record names is filed for it, and it is
final if the copy says so. -/
structure Judged (s : MemoryStore) (sub : Submission) : Prop where
  named : ∀ id, sub.decisionID = some id → ∃ dec, Filed G s sub id dec
  produced : sub.status = .completed → sub.completionReason = some .decisionProduced →
    ∃ id dec, sub.decisionID = some id ∧ Filed G s sub id dec ∧ dec.decision ≠ .defer

def RowsJudged (s : MemoryStore) : Prop :=
  ∀ id row, s.submissions.get? id = some row → Judged G s row.val

/-- Filed decisions stay as they are. -/
def KeepsDecisions (s s' : MemoryStore) : Prop :=
  ∀ id dec, s.getDecision id = some dec → s'.getDecision id = some dec

theorem KeepsDecisions.refl (s : MemoryStore) : KeepsDecisions s s := fun _ _ h => h

theorem KeepsDecisions.of_eq {s s' : MemoryStore} (h : s'.decisions = s.decisions) :
    KeepsDecisions s s' := by
  intro id dec hget
  rwa [MemoryStore.getDecision, h]

/-- The decision that is about to be filed has JSON and a new id. -/
def isNew (s : MemoryStore) (draft : Option PolicyDecision) : Bool :=
  draft.all fun dec => dec.encodable && (s.getDecision dec.id).isNone

theorem keepsDecisions_put {s : MemoryStore} {dec : PolicyDecision}
    (hnew : isNew s (some dec) = true) :
    KeepsDecisions s (s.putDecision dec) ∧ (s.putDecision dec).getDecision dec.id = some dec := by
  simp only [isNew, Option.all_some, Bool.and_eq_true, Option.isNone_iff_eq_none] at hnew
  obtain ⟨henc, hnone⟩ := hnew
  constructor
  · intro id d hget
    rw [getDecision_putDecision henc, if_neg]
    · exact hget
    · intro heq
      rw [heq, hnone] at hget
      cases hget
  · rw [getDecision_putDecision henc, if_pos rfl]

variable {G} {s s' : MemoryStore} {sub sub' : Submission}

theorem Filed.mono {id : String} {dec : PolicyDecision} (h : Filed G s sub id dec)
    (hk : KeepsDecisions s s') : Filed G s' sub id dec :=
  ⟨hk id dec h.get, h.about, h.ruled⟩

theorem Filed.same {id : String} {dec : PolicyDecision} (h : Filed G s sub id dec)
    (hsame : SameSubmission sub sub') : Filed G s sub' id dec :=
  ⟨h.get, h.about.trans hsame.id.symm, hsame.identity ▸ h.ruled⟩

namespace Judged

theorem mono (h : Judged G s sub) (hk : KeepsDecisions s s') : Judged G s' sub where
  named id hid := by
    obtain ⟨dec, hdec⟩ := h.named id hid
    exact ⟨dec, hdec.mono hk⟩
  produced hst hreason := by
    obtain ⟨id, dec, hid, hdec, hfinal⟩ := h.produced hst hreason
    exact ⟨id, dec, hid, hdec.mono hk, hfinal⟩

/-- The copy is given another state, and names the same decision. -/
theorem restate (h : Judged G s sub) (hsame : SameSubmission sub sub')
    (hdec : sub'.decisionID = sub.decisionID)
    (hopen : sub'.status = .completed → sub'.completionReason ≠ some .decisionProduced) :
    Judged G s sub' where
  named id hid := by
    obtain ⟨dec, hfiled⟩ := h.named id (hdec ▸ hid)
    exact ⟨dec, hfiled.same hsame⟩
  produced hst hreason := absurd hreason (hopen hst)

/-- The copy is told apart by nothing that counts. -/
theorem alike (h : Judged G s sub) (hsame : SameSubmission sub sub')
    (hdec : sub'.decisionID = sub.decisionID) (hst : sub'.status = sub.status)
    (hreason : sub'.completionReason = sub.completionReason) : Judged G s sub' where
  named id hid := by
    obtain ⟨dec, hfiled⟩ := h.named id (hdec ▸ hid)
    exact ⟨dec, hfiled.same hsame⟩
  produced hst' hreason' := by
    obtain ⟨id, dec, hid, hfiled, hfinal⟩ :=
      h.produced (hst.symm.trans hst') (hreason.symm.trans hreason')
    exact ⟨id, dec, hdec.trans hid, hfiled.same hsame, hfinal⟩

/-- The copy names the decision that was just filed. -/
theorem of_filed {id : String} {dec : PolicyDecision} (hid : sub.decisionID = some id)
    (hfiled : Filed G s sub id dec)
    (hfinal : sub.status = .completed → sub.completionReason = some .decisionProduced →
      dec.decision ≠ .defer) : Judged G s sub where
  named id' hid' := by
    obtain rfl := Option.some.inj (hid.symm.trans hid')
    exact ⟨dec, hfiled⟩
  produced hst hreason := ⟨id, dec, hid, hfiled, hfinal hst hreason⟩

theorem of_none (hnone : sub.decisionID = none) (hst : sub.status ≠ .completed) :
    Judged G s sub where
  named id hid := by
    rw [hnone] at hid
    cases hid
  produced hst' := absurd hst' hst

end Judged

theorem RowsJudged.get (h : RowsJudged G s) {id : String} (hget : s.getSubmission id = some sub) :
    Judged G s sub := by
  obtain ⟨row, hrow, rfl⟩ := Option.map_eq_some_iff.mp hget
  rw [Stored.copy_eq]
  exact h id row hrow

theorem RowsJudged.of_eq (h : RowsJudged G s) (hsub : s'.submissions = s.submissions)
    (hk : KeepsDecisions s s') : RowsJudged G s' :=
  fun id row hrow => (h id row (hsub ▸ hrow)).mono hk

theorem RowsJudged.put (h : RowsJudged G s) (hsub : Judged G s sub)
    (hput : s'.submissions = s.submissions.put (.of sub)) (hk : KeepsDecisions s s') :
    RowsJudged G s' := by
  intro id row hrow
  rw [hput, SubmissionTable.get?_put_of] at hrow
  split at hrow
  · cases hrow
    exact (hsub.mono hk).alike (.stored sub) rfl rfl rfl
  · exact (h id row hrow).mono hk

/-- What a step of a thread leaves: the store, and what the thread may
write next. -/
structure KeepsJudged (G : SubmissionIdentity → PolicyDecision → Prop) (s s' : MemoryStore)
    (next : MemoryStore → Prop) : Prop where
  decisions : KeepsDecisions s s'
  rows : RowsJudged G s'
  next : next s'

theorem KeepsJudged.same {next : MemoryStore → Prop} (h : RowsJudged G s) (hnext : next s) :
    KeepsJudged G s s next :=
  ⟨.refl s, h, hnext⟩

/-- A call that writes neither submissions nor decisions. -/
theorem KeepsJudged.aside {next : MemoryStore → Prop} (h : RowsJudged G s)
    (hsub : s'.submissions = s.submissions) (hdec : s'.decisions = s.decisions)
    (hnext : next s') : KeepsJudged G s s' next :=
  ⟨.of_eq hdec, h.of_eq hsub (.of_eq hdec), hnext⟩

theorem KeepsJudged.put {next : MemoryStore → Prop} (h : RowsJudged G s) (hsub : Judged G s sub)
    (hnext : next (s.putSubmission sub)) : KeepsJudged G s (s.putSubmission sub) next :=
  ⟨.of_eq rfl, h.put hsub rfl (.of_eq rfl), hnext⟩

/-- A decision on a copy is filed. -/
theorem KeepsJudged.file {next : MemoryStore → Prop} {dec : PolicyDecision} (h : RowsJudged G s)
    (hnew : isNew s (some dec) = true) (habout : dec.submissionID = sub.id)
    (hruled : G (identityOf sub) dec)
    (hnext : Filed G (s.putDecision dec) sub dec.id dec → next (s.putDecision dec)) :
    KeepsJudged G s (s.putDecision dec) next := by
  obtain ⟨hk, hget⟩ := keepsDecisions_put hnew
  exact ⟨hk, h.of_eq rfl hk, hnext ⟨hget, habout, hruled⟩⟩

end Judged

/-! ## Runs -/

/-- What a run may write next is judged. -/
def Pc.Stands (G : SubmissionIdentity → PolicyDecision → Prop) (s : MemoryStore) : Pc → Prop
  | .putRunning sub | .hydrate sub | .checkCtxEmpty sub | .fanOut sub _ _ _ | .putResultIDs sub
  | .getResults sub | .putMerged sub _ _ | .evaluate sub _ _ | .putFailed sub _
  | .interruptedPut sub _ => Judged G s sub
  | .putDecision sub dec => dec.submissionID = sub.id ∧ G (identityOf sub) dec
  | .putDeferred sub dec => Judged G s (deferred sub dec)
  | .complete sub reason decisionID => ∀ now, Judged G s (settled sub reason decisionID now)
  | .checkCtx | .getSubmission | .checkCtxJoined _ | .getSubmissionAgain _ | .interruptedGet _
  | .returned _ => True

theorem Pc.Stands.mono {G : SubmissionIdentity → PolicyDecision → Prop} {s s' : MemoryStore}
    {pc : Pc} (h : Pc.Stands G s pc) (hk : KeepsDecisions s s') : Pc.Stands G s' pc := by
  cases pc with
  | putDecision sub dec => exact h
  | complete sub reason decisionID => exact fun now => (h now).mono hk
  | checkCtx | getSubmission | checkCtxJoined ids | getSubmissionAgain ids | interruptedGet cause
  | returned err => trivial
  | _ => exact Judged.mono h hk

/-- The decision that the run is about to file. -/
def Pc.draft : Pc → Option PolicyDecision
  | .putDecision _ dec => some dec
  | _ => none

def Run.draft (r : Run) : Option PolicyDecision :=
  if r.outbox.isEmpty then Pc.draft r.pc else none

/-- The engine decides on the submission it is given, as `G` allows. -/
def Certifies (o : Orchestrator) (G : SubmissionIdentity → PolicyDecision → Prop) : Prop :=
  ∀ env sub results merged dec, o.evaluate env sub results merged = .ok dec →
    dec.submissionID = sub.id ∧ G (identityOf sub) dec

section Given

variable [GoStd] {o : Orchestrator} {env : RunEnv} {ch : Choice}
  {G : SubmissionIdentity → PolicyDecision → Prop}

/-- **A run names the decision it has taken on the record it writes.** -/
theorem pcStep_judged (hcert : Certifies o G) {subID : String} {w w' : World} {pc pc' : Pc}
    {out : List Emission} (hrows : RowsJudged G w.store) (hpc : Pc.Stands G w.store pc)
    (hnew : isNew w.store (Pc.draft pc) = true)
    (h : pcStep o env ch subID w pc = some (w', pc', out)) :
    KeepsJudged G w.store w'.store (Pc.Stands G · pc') := by
  rcases pcStep_cases h with hmove | ⟨err, rfl, hloss⟩
  · cases hmove with
    | cancelled | start | notFound | cancelledEmpty | join | cancelledJoined | joined
    | disappeared | interruptedMissing | interruptedLate => exact .same hrows trivial
    | load hget | interruptedLoad cause hget => exact .same hrows (hrows.get hget)
    | reload ids hget => exact .same hrows ((hrows.get hget).alike ⟨rfl, rfl⟩ rfl rfl rfl)
    | mark sub =>
      have hrunning : Judged G w.store { sub with status := .running } :=
        hpc.restate ⟨rfl, rfl⟩ rfl fun hst => by cases hst
      exact .put hrows hrunning (hrunning.mono (.of_eq rfl))
    | unreadable | ineligible | select | weigh | merge | noRuling => exact .same hrows hpc
    | noProvider sub =>
      exact .same hrows fun now => hpc.restate ⟨rfl, rfl⟩ rfl fun _ hreason => by cases hreason
    | goroutine hgo hstep =>
      have hdec := (goStep_records hstep).2
      exact .aside hrows (goStep_frame hstep).2 hdec (Judged.mono hpc (.of_eq hdec))
    | findings sub =>
      have hafter : Judged G (w.store.putSubmission sub) sub := hpc.mono (.of_eq rfl)
      exact .put hrows hpc fun now =>
        hafter.restate ⟨rfl, rfl⟩ rfl fun _ hreason => by cases hreason
    | collect sub => exact .put hrows hpc (hpc.mono (.of_eq rfl))
    | mergeStored => exact .aside hrows rfl rfl (Judged.mono hpc (.of_eq rfl))
    | @rule sub results merged decision heval => exact .same hrows (hcert _ sub _ _ _ heval)
    | deferring =>
      refine .file hrows hnew hpc.1 hpc.2 fun hfiled => ?_
      exact .of_filed rfl (hfiled.same ⟨rfl, rfl⟩) fun hst => by cases hst
    | deciding sub hfinal =>
      refine .file hrows hnew hpc.1 hpc.2 fun hfiled now => ?_
      exact .of_filed rfl (hfiled.same ⟨rfl, rfl⟩) fun _ _ => hfinal
    | deferred => exact .put hrows hpc trivial
    | completed => exact .put hrows (hpc ch.now) trivial
    | failed | interrupted =>
      exact .put hrows (hpc.restate ⟨rfl, rfl⟩ rfl fun hst => by cases hst) trivial
  · cases hloss with
    | merge => exact .same hrows hpc
    | _ => exact .same hrows trivial

theorem Run.step_judged (hcert : Certifies o G) {w w' : World} {r r' : Run}
    (hrows : RowsJudged G w.store) (hr : Pc.Stands G w.store r.pc)
    (hnew : isNew w.store (Run.draft r) = true) (h : r.step o env ch w = some (w', r')) :
    KeepsJudged G w.store w'.store (Pc.Stands G · r'.pc) := by
  cases Run.step_move h with
  | emit =>
    exact .aside hrows (World.emit_submissions ..) (World.emit_decisions ..)
      (hr.mono (.of_eq (World.emit_decisions ..)))
  | call hout hcall =>
    rw [Run.draft, hout] at hnew
    exact pcStep_judged hcert hrows hr hnew hcall

end Given

/-! ## Handlers -/

/-- A consumer's resolution of a decision that `G` allows is one, too. -/
def Inherited (G : SubmissionIdentity → PolicyDecision → Prop) : Prop :=
  ∀ x prior req sub randHex now, checkAdjudication req = .ok () → G x prior →
    G x (adjudication req sub prior randHex now)

/-- What a handler may write next is judged. -/
def Handler.Stands (G : SubmissionIdentity → PolicyDecision → Prop) (s : MemoryStore) :
    Handler → Prop
  | .createReserve _ _ sub | .createPut _ _ _ sub | .adjudicatePutSubmission sub _ _ _ =>
    Judged G s sub
  | .adjudicatePrior sub priorID req =>
    Judged G s sub ∧ sub.decisionID = some priorID ∧ checkAdjudication req = .ok ()
  | .adjudicatePutDecision sub _ dec _ =>
    dec.submissionID = sub.id ∧ G (identityOf sub) dec ∧ dec.decision ≠ .defer
  | _ => True

/-- The decision that the handler is about to file. -/
def Handler.files : Handler → Option PolicyDecision
  | .adjudicatePutDecision _ _ dec _ => some dec
  | _ => none

section Calls

variable {G : SubmissionIdentity → PolicyDecision → Prop} {s s' : MemoryStore}

theorem Handler.Stands.mono {h : Handler} (hh : Handler.Stands G s h)
    (hk : KeepsDecisions s s') : Handler.Stands G s' h := by
  cases h with
  | createReserve key hash sub => exact Judged.mono hh hk
  | createPut tok key hash sub => exact Judged.mono hh hk
  | adjudicatePutSubmission sub prior dec req => exact Judged.mono hh hk
  | adjudicatePrior sub priorID req => exact ⟨hh.1.mono hk, hh.2⟩
  | adjudicatePutDecision sub prior dec req => exact hh
  | _ => trivial

theorem adjudicable_decisionID {sub : Submission} {id : String} (h : adjudicable sub = .ok id) :
    sub.decisionID = some id := by
  unfold adjudicable at h
  split at h
  · cases h
  · split at h
    · cases h
    · rename_i hid
      split at h <;> cases h
      exact hid

/-- A resolution is allow or deny. -/
theorem ne_defer_of_checkAdjudication {req : AdjudicateRequest}
    (h : checkAdjudication req = .ok ()) : req.decision ≠ .defer := by
  unfold checkAdjudication at h
  split at h
  · cases h
  · rename_i hreq
    intro hdefer
    exact hreq (by rw [hdefer]; exact ⟨by decide, by decide⟩)

theorem judged_bindSubmission (h : RowsJudged G s) (key hash : String) {sub : Submission}
    (hsub : Judged G s sub) {next : MemoryStore → Prop} (hnext : ∀ s, next s) :
    KeepsJudged G s (s.bindSubmission key hash sub) next := by
  have hdec : (s.bindSubmission key hash sub).decisions = s.decisions := by
    unfold MemoryStore.bindSubmission
    split <;> rfl
  exact ⟨.of_eq hdec, h.put hsub (MemoryStore.bindSubmission_submissions s key hash sub)
    (.of_eq hdec), hnext _⟩

theorem judged_abandonSubmission (h : RowsJudged G s) (id key : String)
    {next : MemoryStore → Prop} (hnext : ∀ s, next s) :
    KeepsJudged G s (s.abandonSubmission id key).2 next := by
  unfold MemoryStore.abandonSubmission
  split
  · exact .same h (hnext _)
  · split
    · exact .same h (hnext _)
    · refine ⟨.of_eq rfl, fun y row hrow => ?_, hnext _⟩
      rw [Table.get?_erase] at hrow
      split at hrow
      · cases hrow
      · exact (h y row hrow).mono (.of_eq rfl)

theorem judged_claimResume (h : RowsJudged G s) {id : String} {sub : Submission}
    (hclaim : s.claimResume id = (.ok sub, s')) {next : MemoryStore → Prop} (hnext : ∀ s, next s) :
    KeepsJudged G s s' next := by
  unfold MemoryStore.claimResume at hclaim
  split at hclaim
  · cases hclaim
  · rename_i row hrow
    split at hclaim <;> cases hclaim
    exact .put h ((h id row hrow).restate ⟨rfl, rfl⟩ rfl fun hst => by cases hst) (hnext _)

theorem judged_releaseResume (h : RowsJudged G s) (id : String) {next : MemoryStore → Prop}
    (hnext : ∀ s, next s) : KeepsJudged G s (s.releaseResume id) next := by
  unfold MemoryStore.releaseResume
  split
  · exact .same h (hnext _)
  · rename_i row hrow
    split
    · exact .same h (hnext _)
    · exact .put h ((h id row hrow).restate ⟨rfl, rfl⟩ rfl fun hst => by cases hst) (hnext _)

/-- **A resolution is of the decision that the record names.** -/
theorem Handler.step_judged (hinherit : Inherited G) {σ : Type} {d : Dispatcher σ}
    (hd : WritesJobs d) {ch : HandlerChoice} {p p' : σ} {w w' : World} {h h' : Handler}
    (hrows : RowsJudged G w.store) (hh : Handler.Stands G w.store h)
    (hnew : isNew w.store (Handler.files h) = true)
    (hs : h.step d ch p w = some (p', w', h')) :
    KeepsJudged G w.store w'.store (Handler.Stands G · h') := by
  cases Handler.step_move hs with
  | commitFailed key hcommit | committed key hcommit | resumeFailed hcommit | resumed hcommit =>
    obtain ⟨jobs, rfl⟩ := hd.commit hcommit
    exact .aside hrows rfl rfl trivial
  | reserved => exact .same hrows hh
  | created tok hash => exact judged_bindSubmission hrows _ hash hh fun _ => trivial
  | abandoned tok key id answer => exact judged_abandonSubmission hrows id key fun _ => trivial
  | claimed hclaim => exact judged_claimResume hrows hclaim fun _ => trivial
  | unmarked id e => exact judged_releaseResume hrows id fun _ => trivial
  | adjudicable hreq hget hprior =>
    exact .same hrows ⟨hrows.get hget, adjudicable_decisionID hprior, hreq⟩
  | @resolved sub priorID req prior hget =>
    obtain ⟨hsub, hid, hreq⟩ := hh
    obtain ⟨named, hnamed⟩ := hsub.named priorID hid
    obtain rfl := Option.some.inj (hget.symm.trans hnamed.get)
    exact .same hrows ⟨rfl, hinherit _ _ req sub _ _ hreq hnamed.ruled,
      ne_defer_of_checkAdjudication hreq⟩
  | filed sub prior dec req =>
    obtain ⟨habout, hruled, hfinal⟩ := hh
    refine .file hrows hnew habout hruled fun hfiled => ?_
    exact .of_filed rfl (hfiled.same ⟨rfl, rfl⟩) fun _ _ => hfinal
  | overruled sub prior dec req => exact .put hrows hh trivial
  | told =>
    exact .aside hrows (World.emit_submissions ..) (World.emit_decisions ..) trivial
  | _ => exact .same hrows trivial

/-- A new submission names no decision. -/
theorem judged_newSubmission (req : CreateRequest) (id : String) (now : Time) :
    Judged G s (newSubmission req id now) :=
  .of_none rfl fun hst => by cases hst

end Calls

end Scintx.System
