/-
Scintx.Orchestrator.Moves — what a step of a run can do.

`PcMove` has one constructor for each way in which a run goes on, with
what it has read, why it goes there and what it leaves in the store.
`PcLoss` has those in which a store call has failed; the world then stays
as it was. `pcStep_cases` says that there is no other. `GoMove` is the
same for a goroutine of the run, and `RunMove` adds the emissions.
Invariants of runs are proved by cases on these, so that `goStep`,
`pcStep` and `Run.step` are taken apart here only.
-/
import Scintx.Orchestrator.Process

namespace Scintx.Orchestrator

open Scintx.Lib Scintx.Api Scintx.Store

theorem GoPc.eq_done {pc : GoPc} (h : pc.isDone = true) : pc = .done := by
  cases pc <;> first | rfl | cases h

/-- The merged view the policy is given, if there is one. -/
def Orchestrator.merged (o : Orchestrator) (env : RunEnv) (sub : Submission)
    (results : List ProviderResult) : Option MergedResult :=
  match o.aggregator with
  | none => none
  | some a =>
    match a.aggregate env.mergedRand env.mergedAt results with
    | .error _ => none
    | .ok m => some { m with submissionID := sub.id }

/-- What `complete` writes. -/
def settled (sub : Submission) (reason : CompletionReason) (decisionID : Option String)
    (now : Time) : Submission :=
  let sub := ended sub .completed reason now
  if decisionID = none then sub else { sub with decisionID := decisionID }

section Settled

variable {sub : Submission} {reason : CompletionReason} {decisionID : Option String} {now : Time}

@[simp] theorem settled_id : (settled sub reason decisionID now).id = sub.id := by
  unfold settled
  simp only
  split <;> rfl

@[simp] theorem settled_status : (settled sub reason decisionID now).status = .completed := by
  unfold settled
  simp only
  split <;> rfl

end Settled

section Goroutines

variable [GoStd] (o : Orchestrator) (env : RunEnv) (ch : Choice) (subID : String)
  (artifact : Artifact) (i : Nat) (sel : SelectedProvider) (w : World) (ids : List String)

/-- The goroutine goes on from the first place to the second, and the
world `w` and the ids recorded so far become those between them. -/
inductive GoMove : GoPc → World → List String → GoPc → Prop
  | start :
      GoMove .start
        (w.emit ch.storeErr ch.randHex ch.now
          (submissionEvent "provider.invocation.started" subID
            [("provider_id", sel.provID), ("capability", sel.capability.id)]))
        ids .lookup
  | hit {cached : ProviderResult} (hget : env.cacheGet i = some cached) :
      GoMove .lookup w ids
        (.put (materializeCachedResult cached subID (env.resultRand i) (env.clock i) o.cacheTTL))
  | miss (hget : env.cacheGet i = none) : GoMove .lookup w ids .assess
  | cacheable : GoMove .assess w ids (.cacheSet (assessed env subID i))
  | uncacheable : GoMove .assess w ids (.put (assessed env subID i))
  | cached (res : ProviderResult) (hok : ch.cacheErr = false) :
      GoMove (.cacheSet res)
        { w with
          cache := w.cache.insert (resultCacheKey sel.provID sel.capability.id artifact)
            (marshalResult res) }
        ids (.put res)
  | notCached (res : ProviderResult) : GoMove (.cacheSet res) w ids (.put res)
  | stored (res : ProviderResult) (hok : ch.storeErr = none) :
      GoMove (.put res) { w with store := w.store.putResult res } ids (.record res)
  | notStored (res : ProviderResult) (hfail : ch.storeErr ≠ none) : GoMove (.put res) w ids .done
  | recorded (res : ProviderResult) : GoMove (.record res) w (ids ++ [res.id]) (.report res)
  | reported (res : ProviderResult) :
      GoMove (.report res)
        (w.emit ch.storeErr ch.randHex ch.now (resultEvent subID sel.provID res)) ids .done

variable {o env ch subID artifact i sel w ids}

theorem goStep_move {w' : World} {ids' : List String} {pc pc' : GoPc}
    (h : goStep o env ch subID artifact i sel w ids pc = some (w', ids', pc')) :
    GoMove o env ch subID artifact i sel w ids pc w' ids' pc' := by
  cases pc with
  | start | record res | report res =>
    cases h
    constructor
  | lookup =>
    simp only [goStep] at h
    split at h <;> cases h
    · exact .hit ‹_›
    · exact .miss ‹_›
  | assess =>
    simp only [goStep] at h
    split at h <;> cases h
    · exact .cacheable
    · exact .uncacheable
  | cacheSet res =>
    simp only [goStep] at h
    split at h <;> cases h
    · exact .notCached res
    · exact .cached res (Bool.eq_false_of_not_eq_true ‹_›)
  | put res =>
    simp only [goStep] at h
    split at h <;> rename_i hstore <;> cases h
    · exact .notStored res (by simp [hstore])
    · exact .stored res hstore
  | done => cases h

end Goroutines

section Given

variable [GoStd] (o : Orchestrator) (env : RunEnv) (ch : Choice) (subID : String) (w : World)

/-- The run goes on from the first place to the second, and the world
`w` becomes the one between them. -/
inductive PcMove : Pc → World → Pc → List Emission → Prop
  | cancelled {cause : String} (hcan : ch.cancelled = some cause) :
      PcMove .checkCtx w (.interruptedGet cause) []
  | start : PcMove .checkCtx w .getSubmission []
  | notFound (hget : w.store.getSubmission subID = none) :
      PcMove .getSubmission w (.returned (some ("submission not found: " ++ subID))) []
  | load {sub : Submission} (hget : w.store.getSubmission subID = some sub) :
      PcMove .getSubmission w (.putRunning sub) []
  | mark (sub : Submission) :
      PcMove (.putRunning sub)
        { w with store := w.store.putSubmission { sub with status := .running } }
        (.hydrate { sub with status := .running })
        [submissionEvent "submission.created" sub.id [("status", SubmissionStatus.running.text)]]
  | unreadable {sub : Submission} {e : String}
      (hyd : hydrateLocalBlob w.store ch.storeErr (canonicalArtifact sub.artifact) = .error e) :
      PcMove (.hydrate sub) w (.putFailed sub e) []
  | ineligible {sub : Submission} {artifact : Artifact}
      (hyd : hydrateLocalBlob w.store ch.storeErr (canonicalArtifact sub.artifact) =
        .ok artifact) (hnone : o.selected sub artifact = []) :
      PcMove (.hydrate sub) w (.checkCtxEmpty sub) []
  | select {sub : Submission} {artifact : Artifact}
      (hyd : hydrateLocalBlob w.store ch.storeErr (canonicalArtifact sub.artifact) =
        .ok artifact) :
      PcMove (.hydrate sub) w
        (.fanOut sub artifact ((o.selected sub artifact).map fun sel => (sel, .start)) []) []
  | cancelledEmpty (sub : Submission) (cause : String) :
      PcMove (.checkCtxEmpty sub) w (.interruptedGet cause) []
  | noProvider (sub : Submission) :
      PcMove (.checkCtxEmpty sub) w (.complete sub .allProvidersIneligible none) []
  | goroutine {sub : Submission} {artifact : Artifact} {gos : List (SelectedProvider × GoPc)}
      {ids ids' : List String} {sel : SelectedProvider} {pc pc' : GoPc} {w' : World}
      (hgo : gos[ch.goroutine]? = some (sel, pc))
      (hstep : goStep o env ch sub.id artifact ch.goroutine sel w ids pc = some (w', ids', pc')) :
      PcMove (.fanOut sub artifact gos ids) w'
        (.fanOut sub artifact (gos.set ch.goroutine (sel, pc')) ids') []
  | join {sub : Submission} {artifact : Artifact} {gos : List (SelectedProvider × GoPc)}
      {ids : List String} (hdone : ∀ g ∈ gos, g.2 = .done) :
      PcMove (.fanOut sub artifact gos ids) w (.checkCtxJoined ids) []
  | cancelledJoined (ids : List String) (cause : String) :
      PcMove (.checkCtxJoined ids) w (.interruptedGet cause) []
  | joined (ids : List String) : PcMove (.checkCtxJoined ids) w (.getSubmissionAgain ids) []
  | disappeared (ids : List String) (hget : w.store.getSubmission subID = none) :
      PcMove (.getSubmissionAgain ids) w (.returned (some ("submission disappeared: " ++ subID))) []
  | reload {sub : Submission} (ids : List String)
      (hget : w.store.getSubmission subID = some sub) :
      PcMove (.getSubmissionAgain ids) w (.putResultIDs { sub with resultIDs := ids }) []
  | findings (sub : Submission) :
      PcMove (.putResultIDs sub) { w with store := w.store.putSubmission sub }
        (.complete sub .findingsOnly none) []
  | collect (sub : Submission) :
      PcMove (.putResultIDs sub) { w with store := w.store.putSubmission sub } (.getResults sub) []
  | weigh {sub : Submission} {results : List ProviderResult}
      (hresults : w.store.getResultsForSubmission ch.order sub.id = results)
      (hmerged : o.merged env sub results = none) :
      PcMove (.getResults sub) w (.evaluate sub results none) []
  | merge {sub : Submission} {results : List ProviderResult} {merged : MergedResult}
      (hresults : w.store.getResultsForSubmission ch.order sub.id = results)
      (hmerged : o.merged env sub results = some merged) :
      PcMove (.getResults sub) w (.putMerged sub results merged) []
  | mergeStored (sub : Submission) (results : List ProviderResult) (merged : MergedResult) :
      PcMove (.putMerged sub results merged)
        { w with store := w.store.putMergedResult merged } (.evaluate sub results (some merged)) []
  | rule {sub : Submission} {results : List ProviderResult} {merged : Option MergedResult}
      {decision : PolicyDecision}
      (heval : o.evaluate env.eval sub results merged = .ok decision) :
      PcMove (.evaluate sub results merged) w (.putDecision sub decision) []
  | noRuling (sub : Submission) (results : List ProviderResult) (merged : Option MergedResult)
      (e : String) : PcMove (.evaluate sub results merged) w (.putFailed sub e) []
  | deferring (sub : Submission) {decision : PolicyDecision}
      (hdefer : decision.decision = .defer) :
      PcMove (.putDecision sub decision) { w with store := w.store.putDecision decision }
        (.putDeferred { sub with decisionID := some decision.id } decision) []
  | deciding (sub : Submission) {decision : PolicyDecision} (hfinal : decision.decision ≠ .defer) :
      PcMove (.putDecision sub decision) { w with store := w.store.putDecision decision }
        (.complete { sub with decisionID := some decision.id } .decisionProduced (some decision.id))
        [submissionEvent "policy-decision.created" sub.id
          [("decision_id", decision.id), ("decision", decision.decision.text)]]
  | deferred (sub : Submission) (decision : PolicyDecision) :
      PcMove (.putDeferred sub decision)
        { w with store := w.store.putSubmission (deferred sub decision) } (.returned none)
        [submissionEvent "submission.deferred" sub.id
          [("decision_id", decision.id), ("decision", decision.decision.text)]]
  | completed (sub : Submission) (reason : CompletionReason) (decisionID : Option String) :
      PcMove (.complete sub reason decisionID)
        { w with store := w.store.putSubmission (settled sub reason decisionID ch.now) }
        (.returned none)
        [submissionEvent "submission.completed" (settled sub reason decisionID ch.now).id
          (("completion_reason", reason.text) ::
            decisionID.toList.map fun id => ("decision_id", id))]
  | failed (sub : Submission) (e : String) :
      PcMove (.putFailed sub e)
        { w with store := w.store.putSubmission (ended sub .failed .failed ch.now) }
        (.returned (some e)) [submissionEvent "submission.failed" sub.id [("error", e)]]
  | interruptedMissing (cause : String) (hget : w.store.getSubmission subID = none) :
      PcMove (.interruptedGet cause) w (.returned (some cause)) []
  | interruptedLate {sub : Submission} (cause : String)
      (hget : w.store.getSubmission subID = some sub) (hterm : isTerminal sub.status = true) :
      PcMove (.interruptedGet cause) w (.returned (some cause)) []
  | interruptedLoad {sub : Submission} (cause : String)
      (hget : w.store.getSubmission subID = some sub) (hopen : isTerminal sub.status = false) :
      PcMove (.interruptedGet cause) w (.interruptedPut sub cause) []
  | interrupted (sub : Submission) (cause : String) :
      PcMove (.interruptedPut sub cause)
        { w with store := w.store.putSubmission (ended sub .failed .interrupted ch.now) }
        (.returned (some cause)) [submissionEvent "submission.failed" sub.id
          [("error", cause), ("completion_reason", CompletionReason.interrupted.text)]]

end Given

/-- The error of the store call that is made here ends the run. -/
def Pc.stops : Pc → Bool
  | .getSubmission | .putRunning _ | .getSubmissionAgain _ | .putResultIDs _ => true
  | .getResults _ | .putDecision _ _ | .putDeferred _ _ | .complete _ _ _ => true
  | _ => false

/-- The store call that is made here fails with `err`. -/
inductive PcLoss (err : String) : Pc → Pc → List Emission → Prop
  | call {pc : Pc} (hpc : pc.stops = true) : PcLoss err pc (.returned (some err)) []
  /-- A merged view that cannot be stored is still used. -/
  | merge (sub : Submission) (results : List ProviderResult) (merged : MergedResult) :
      PcLoss err (.putMerged sub results merged) (.evaluate sub results (some merged)) []
  | failed (sub : Submission) (e : String) :
      PcLoss err (.putFailed sub e) (.returned (some e))
        [submissionEvent "submission.failed" sub.id [("error", e)]]
  | interruptedGet (cause : String) :
      PcLoss err (.interruptedGet cause) (.returned (some cause)) []
  | interrupted (sub : Submission) (cause : String) :
      PcLoss err (.interruptedPut sub cause) (.returned (some cause))
        [submissionEvent "submission.failed" sub.id
          [("error", cause), ("completion_reason", CompletionReason.interrupted.text)]]

/-- No store call is made here, or its error is not the run's own. -/
def Pc.storeless : Pc → Bool
  | .checkCtx | .hydrate _ | .checkCtxEmpty _ | .fanOut _ _ _ _ | .checkCtxJoined _ => true
  | .evaluate _ _ _ => true
  | _ => false

section Given

variable [GoStd] {o : Orchestrator} {env : RunEnv} {ch : Choice} {subID : String} {w w' : World}
  {pc pc' : Pc} {out : List Emission}

/-- The view of the results is merged, or there is none. -/
theorem move_getResults {sub : Submission}
    (h : pcStep o env ch subID w (.getResults sub) = some (w', pc', out))
    (hok : ch.storeErr = none) : PcMove o env ch subID w (.getResults sub) w' pc' out := by
  simp only [pcStep, hok] at h
  split at h
  · rename_i hagg
    cases h
    exact .weigh rfl (by simp only [Orchestrator.merged, hagg])
  · rename_i hagg
    split at h <;> rename_i hm <;> cases h
    · exact .weigh rfl (by simp only [Orchestrator.merged, hagg, hm])
    · exact .merge rfl (by simp only [Orchestrator.merged, hagg, hm])

theorem move_fanOut {sub : Submission} {artifact : Artifact}
    {gos : List (SelectedProvider × GoPc)} {ids : List String}
    (h : pcStep o env ch subID w (.fanOut sub artifact gos ids) = some (w', pc', out)) :
    PcMove o env ch subID w (.fanOut sub artifact gos ids) w' pc' out := by
  simp only [pcStep] at h
  split at h
  · rename_i hall
    cases h
    exact .join fun g hg => GoPc.eq_done (List.all_eq_true.mp hall g hg)
  · split at h
    · cases h
    · rename_i hgo
      obtain ⟨⟨w₁, ids₁, pc₁⟩, hstep, heq⟩ := Option.map_eq_some_iff.mp h
      cases heq
      exact .goroutine hgo hstep

/-- A step without a store call of its own. -/
theorem move_storeless (hpc : pc.storeless = true)
    (h : pcStep o env ch subID w pc = some (w', pc', out)) :
    PcMove o env ch subID w pc w' pc' out := by
  cases pc with
  | checkCtx =>
    simp only [pcStep] at h
    split at h <;> rename_i hcan <;> cases h
    · exact .cancelled hcan
    · exact .start
  | hydrate sub =>
    simp only [pcStep] at h
    split at h <;> rename_i hyd
    · cases h
      exact .unreadable hyd
    · split at h <;> rename_i hsel <;> cases h
      · exact .ineligible hyd hsel
      · exact .select hyd
  | checkCtxEmpty sub =>
    simp only [pcStep] at h
    split at h <;> cases h
    · exact .cancelledEmpty ..
    · exact .noProvider sub
  | fanOut sub artifact gos ids => exact move_fanOut h
  | checkCtxJoined ids =>
    simp only [pcStep] at h
    split at h <;> cases h
    · exact .cancelledJoined ..
    · exact .joined ids
  | evaluate sub results merged =>
    simp only [pcStep] at h
    split at h <;> rename_i heval <;> cases h
    · exact .noRuling ..
    · exact .rule heval
  | _ => cases hpc

/-- A step whose store call, if it makes one, does not fail. -/
theorem pcStep_move (hok : ch.storeErr = none)
    (h : pcStep o env ch subID w pc = some (w', pc', out)) :
    PcMove o env ch subID w pc w' pc' out := by
  cases pc with
  | getSubmission =>
    simp only [pcStep, hok] at h
    split at h <;> rename_i hget <;> cases h
    · exact .notFound hget
    · exact .load hget
  | getSubmissionAgain ids =>
    simp only [pcStep, hok] at h
    split at h <;> rename_i hget <;> cases h
    · exact .disappeared ids hget
    · exact .reload ids hget
  | putResultIDs sub =>
    simp only [pcStep, hok] at h
    split at h <;> cases h
    · exact .collect sub
    · exact .findings sub
  | getResults sub => exact move_getResults h hok
  | putDecision sub decision =>
    simp only [pcStep, hok] at h
    split at h <;> rename_i hdefer <;> cases h
    · exact .deferring sub hdefer
    · exact .deciding sub hdefer
  -- one call, after which there is one way to go
  | putRunning | putMerged | putDeferred | complete | putFailed | interruptedPut =>
    simp only [pcStep, hok] at h
    cases h
    constructor
  | interruptedGet cause =>
    simp only [pcStep, hok] at h
    split at h <;> rename_i hget
    · cases h
      exact .interruptedMissing cause hget
    · split at h <;> rename_i hterm <;> cases h
      · exact .interruptedLate cause hget hterm
      · exact .interruptedLoad cause hget (Bool.eq_false_of_not_eq_true hterm)
  | returned err => cases h
  | _ => exact move_storeless rfl h

/-- A step whose store call fails. -/
theorem pcStep_loss {err : String} (herr : ch.storeErr = some err) (hpc : pc.storeless = false)
    (h : pcStep o env ch subID w pc = some (w', pc', out)) : w' = w ∧ PcLoss err pc pc' out := by
  cases pc with
  | putMerged sub results merged =>
    simp only [pcStep, herr] at h
    cases h
    exact ⟨rfl, .merge ..⟩
  | putFailed sub e =>
    simp only [pcStep, herr] at h
    cases h
    exact ⟨rfl, .failed ..⟩
  | interruptedGet cause =>
    simp only [pcStep, herr] at h
    cases h
    exact ⟨rfl, .interruptedGet cause⟩
  | interruptedPut sub cause =>
    simp only [pcStep, herr] at h
    cases h
    exact ⟨rfl, .interrupted ..⟩
  | getSubmission | putRunning | getSubmissionAgain | putResultIDs | getResults | putDecision
  | putDeferred | complete =>
    simp only [pcStep, herr] at h
    cases h
    exact ⟨rfl, .call rfl⟩
  | returned => cases h
  | _ => cases hpc

/-- **All that a step can do.** -/
theorem pcStep_cases (h : pcStep o env ch subID w pc = some (w', pc', out)) :
    PcMove o env ch subID w pc w' pc' out ∨ ∃ err, w' = w ∧ PcLoss err pc pc' out := by
  cases hstore : ch.storeErr with
  | none => exact .inl (pcStep_move hstore h)
  | some err =>
    cases hpc : pc.storeless with
    | true => exact .inl (move_storeless hpc h)
    | false => exact .inr ⟨err, pcStep_loss hstore hpc h⟩

end Given

section Runs

variable [GoStd] (o : Orchestrator) (env : RunEnv) (ch : Choice) (w : World) (r : Run)

/-- A run goes on when its outbox is empty. -/
inductive RunMove : World → Run → Prop
  | emit {e : Emission} {rest : List Emission} (hout : r.outbox = e :: rest) :
      RunMove (w.emit ch.storeErr ch.randHex ch.now e) { r with outbox := rest }
  | call {w' : World} {pc : Pc} {out : List Emission} (hout : r.outbox = [])
      (hcall : pcStep o env ch r.subID w r.pc = some (w', pc, out)) :
      RunMove w' { r with pc := pc, outbox := out }

variable {o env ch w r}

theorem Run.step_move {w' : World} {r' : Run} (h : r.step o env ch w = some (w', r')) :
    RunMove o env ch w r w' r' := by
  unfold Run.step at h
  split at h
  · rename_i hout
    cases h
    exact .emit hout
  · rename_i hout
    obtain ⟨⟨w₁, pc, out⟩, hcall, heq⟩ := Option.map_eq_some_iff.mp h
    cases heq
    exact .call hout hcall

end Runs

end Scintx.Orchestrator
