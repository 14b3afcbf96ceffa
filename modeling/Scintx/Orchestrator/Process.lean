/-
Scintx.Orchestrator.Process — `Orchestrator.Process`, step by step
(`internal/scintx/orchestrator.go`).

A run reads and writes the store in single calls, and between two calls
anything else may happen. So a run is a MACHINE: `Pc` is where it stands,
with the variables the code holds there, and `Run.step` is the next call
with the computation around it. After the providers are selected the run
splits into one goroutine a provider, each with a program counter of its
own (`GoPc`), of which any may move next.

Two kinds of inputs. `RunEnv` is what the outside answers a run,
whenever it is asked: providers, cache, random ids, and the clock as the
goroutines and the policy engine read it. `Choice` is what the scheduler
and the runtime choose at one step: whether the context is found
cancelled, whether the store call fails, which goroutine moves, in which
order a map is walked.

`Emit` after a store call is a step of its own: `outbox` holds what the
code is about to emit.

Left out: a provider that returns no result and no error, which panics.
-/
import Scintx.Orchestrator.World
import Scintx.Policy.Evaluate

set_option linter.dupNamespace false

namespace Scintx.Orchestrator

open Scintx.Lib Scintx.Api Scintx.Store Scintx.Policy

/-! ## The orchestrator -/

structure Provider where
  id : String
  capabilities : List Capability

/-- `api.PolicyEngine`, with `EvaluateMerged` where the engine is merge
aware. -/
structure PolicyEngine where
  evaluate : Submission → List ProviderResult → EvalEnv → Except String PolicyDecision
  evaluateMerged :
    Option (Submission → List ProviderResult → MergedResult → EvalEnv →
      Except String PolicyDecision) := none

/-- `api.ResultAggregator`, over the random id and the clock reading it
takes. -/
structure ResultAggregator where
  aggregate : (randHex : String) → Time → List ProviderResult → Except String MergedResult

structure Orchestrator where
  providers : List Provider
  policy : PolicyEngine
  aggregator : Option ResultAggregator := none
  cacheTTL : Duration := 3600000000000

structure SelectedProvider where
  provID : String
  capability : Capability

/-- What the outside answers one run; the argument of the first four is
the position of the goroutine among the selected providers. -/
structure RunEnv where
  /-- `cache.Get`: `none` for a miss and for an error. -/
  cacheGet : Nat → Option ProviderResult
  /-- `Assess`: a result, or the text of an error. -/
  assess : Nat → Except String ProviderResult
  resultRand : Nat → String
  clock : Nat → Time
  mergedRand : String
  mergedAt : Time
  eval : EvalEnv

/-- What is chosen at one step. -/
structure Choice where
  /-- `ctx.Err()`. -/
  cancelled : Option String := none
  /-- The failure of the step's store call. -/
  storeErr : Option String := none
  /-- `cache.Set` fails. -/
  cacheErr : Bool := false
  now : Time := 0
  /-- The random part of an event id. -/
  randHex : String := ""
  /-- The order in which `GetResultsForSubmission` walks the results. -/
  order : List String := []
  goroutine : Nat := 0

inductive GoPc where
  | start
  | lookup
  | assess
  | cacheSet (res : ProviderResult)
  | put (res : ProviderResult)
  | record (res : ProviderResult)
  | report (res : ProviderResult)
  | done

def GoPc.isDone : GoPc → Bool
  | .done => true
  | _ => false

inductive Pc where
  | checkCtx
  | getSubmission
  | putRunning (sub : Submission)
  | hydrate (sub : Submission)
  | checkCtxEmpty (sub : Submission)
  | fanOut (sub : Submission) (artifact : Artifact) (gos : List (SelectedProvider × GoPc))
      (resultIDs : List String)
  | checkCtxJoined (resultIDs : List String)
  | getSubmissionAgain (resultIDs : List String)
  | putResultIDs (sub : Submission)
  | getResults (sub : Submission)
  | putMerged (sub : Submission) (results : List ProviderResult) (merged : MergedResult)
  | evaluate (sub : Submission) (results : List ProviderResult) (merged : Option MergedResult)
  | putDecision (sub : Submission) (decision : PolicyDecision)
  | putDeferred (sub : Submission) (decision : PolicyDecision)
  | complete (sub : Submission) (reason : CompletionReason) (decisionID : Option String)
  | putFailed (sub : Submission) (err : String)
  | interruptedGet (cause : String)
  | interruptedPut (sub : Submission) (cause : String)
  | returned (err : Option String)

structure Run where
  subID : String
  pc : Pc := .checkCtx
  outbox : List Emission := []

/-- `Process` has returned. -/
def runFinished (r : Run) : Bool :=
  match r.pc, r.outbox with
  | .returned _, [] => true
  | _, _ => false

/-! ## Pieces of the run -/

/-- Data of an event, of texts. -/
def eventData (entries : List (String × String)) : GoMap AnyValue :=
  entries.foldl (fun m (k, v) => m.insert k (.str v)) ∅

/-- An event about a submission. -/
def submissionEvent (type subID : String) (entries : List (String × String)) : Emission :=
  { type := "org.eclipse.scintx." ++ type ++ ".v1"
    subject := subID
    data := eventData (("submission_id", subID) :: entries) }

def isTerminal (s : SubmissionStatus) : Bool :=
  s = .completed || s = .failed || s = .deferred

/-- The error result of a provider that failed. -/
def transportError (randHex : String) (now : Time) (message : String) : ProviderResult where
  id := "res_" ++ randHex
  execution :=
    { status := .error, startedAt := now, finishedAt := now
      error := some { code := .transport, message := message } }

/-- What `Assess` comes to. -/
def assessed (env : RunEnv) (subID : String) (i : Nat) : ProviderResult :=
  match env.assess i with
  | .ok res => { res with submissionID := subID }
  | .error e => { transportError (env.resultRand i) (env.clock i) e with submissionID := subID }

def cacheHit (r : ProviderResult) : Bool :=
  match r.cache with
  | none => false
  | some info => info.hit

def resultEventType : ExecutionStatus → String
  | .error => "provider.result.error"
  | .timeout => "provider.result.timeout"
  | _ => "provider.result.completed"

def resultEvent (subID provID : String) (res : ProviderResult) : Emission :=
  let e := submissionEvent (resultEventType res.execution.status) subID
    [("result_id", res.id), ("provider_id", provID),
      ("execution_status", res.execution.status.text)]
  { e with data := e.data.insert "cache_hit" (.bool (cacheHit res)) }

/-- The policy is evaluated on the merged view if there is one and the
engine can use it. -/
def Orchestrator.evaluate (o : Orchestrator) (env : EvalEnv) (sub : Submission)
    (results : List ProviderResult) (merged : Option MergedResult) :
    Except String PolicyDecision :=
  match merged, o.policy.evaluateMerged with
  | some m, some evaluateMerged => evaluateMerged sub results m env
  | _, _ => o.policy.evaluate sub results env

/-- The stored form of a deferred submission. -/
def deferred (sub : Submission) (decision : PolicyDecision) : Submission :=
  { sub with
    status := .deferred
    completionReason := some .deferred
    resumeAt := if decision.resumeAt ≠ none then decision.resumeAt else sub.resumeAt }

/-- The stored form of a submission that ends at `now`. -/
def ended (sub : Submission) (status : SubmissionStatus) (reason : CompletionReason) (now : Time) :
    Submission :=
  { sub with status := status, completionReason := some reason, completedAt := some now }

section Given

variable [GoStd]

/-- The artifact as providers see it, before its content is loaded. -/
def canonicalArtifact (artifact : Artifact) : Artifact :=
  match artifact.purl with
  | none => artifact
  | some p =>
    match canonicalPurl p with
    | .ok cp => { artifact with purl := some cp }
    | .error _ => artifact

def Orchestrator.selected (o : Orchestrator) (sub : Submission) (artifact : Artifact) :
    List SelectedProvider :=
  sub.requestedCapabilities.flatMap fun reqCap =>
    o.providers.filterMap fun p =>
      match matchingCapability artifact p.capabilities reqCap with
      | .ok c => some { provID := p.id, capability := c }
      | .error _ => none

/-! ## Steps -/

/-- One step of the `i`-th goroutine. -/
def goStep (o : Orchestrator) (env : RunEnv) (ch : Choice) (subID : String) (artifact : Artifact)
    (i : Nat) (sel : SelectedProvider) (w : World) (ids : List String) :
    GoPc → Option (World × List String × GoPc)
  | .start =>
    some (w.emit ch.storeErr ch.randHex ch.now
        (submissionEvent "provider.invocation.started" subID
          [("provider_id", sel.provID), ("capability", sel.capability.id)]),
      ids, .lookup)
  | .lookup =>
    match env.cacheGet i with
    | some cached =>
      some (w, ids,
        .put (materializeCachedResult cached subID (env.resultRand i) (env.clock i) o.cacheTTL))
    | none => some (w, ids, .assess)
  | .assess =>
    let res := assessed env subID i
    -- only completed assessments are cached
    some (w, ids, if res.execution.status = .completed then .cacheSet res else .put res)
  | .cacheSet res =>
    let key := resultCacheKey sel.provID sel.capability.id artifact
    some (if ch.cacheErr then w else { w with cache := w.cache.insert key (marshalResult res) },
      ids, .put res)
  | .put res =>
    match ch.storeErr with
    | some _ => some (w, ids, .done)
    | none => some ({ w with store := w.store.putResult res }, ids, .record res)
  | .record res => some (w, ids ++ [res.id], .report res)
  | .report res =>
    some (w.emit ch.storeErr ch.randHex ch.now (resultEvent subID sel.provID res), ids, .done)
  | .done => none

/-- One step of the run, its emissions apart. -/
def pcStep (o : Orchestrator) (env : RunEnv) (ch : Choice) (subID : String) (w : World) :
    Pc → Option (World × Pc × List Emission)
  | .checkCtx =>
    match ch.cancelled with
    | some cause => some (w, .interruptedGet cause, [])
    | none => some (w, .getSubmission, [])
  | .getSubmission =>
    match ch.storeErr with
    | some e => some (w, .returned (some e), [])
    | none =>
      match w.store.getSubmission subID with
      | none => some (w, .returned (some ("submission not found: " ++ subID)), [])
      | some sub => some (w, .putRunning sub, [])
  | .putRunning sub =>
    let sub := { sub with status := .running }
    match ch.storeErr with
    | some e => some (w, .returned (some e), [])
    | none =>
      some ({ w with store := w.store.putSubmission sub }, .hydrate sub,
        [submissionEvent "submission.created" sub.id [("status", sub.status.text)]])
  | .hydrate sub =>
    match hydrateLocalBlob w.store ch.storeErr (canonicalArtifact sub.artifact) with
    | .error e => some (w, .putFailed sub e, [])
    | .ok artifact =>
      match o.selected sub artifact with
      | [] => some (w, .checkCtxEmpty sub, [])
      | sels => some (w, .fanOut sub artifact (sels.map fun sel => (sel, .start)) [], [])
  | .checkCtxEmpty sub =>
    match ch.cancelled with
    | some cause => some (w, .interruptedGet cause, [])
    | none => some (w, .complete sub .allProvidersIneligible none, [])
  | .fanOut sub artifact gos ids =>
    -- the run waits until every goroutine is done
    if gos.all fun g => g.2.isDone then
      some (w, .checkCtxJoined ids, [])
    else
      match gos[ch.goroutine]? with
      | none => none
      | some (sel, pc) =>
        (goStep o env ch sub.id artifact ch.goroutine sel w ids pc).map fun (w, ids, pc) =>
          (w, .fanOut sub artifact (gos.set ch.goroutine (sel, pc)) ids, [])
  | .checkCtxJoined ids =>
    match ch.cancelled with
    | some cause => some (w, .interruptedGet cause, [])
    | none => some (w, .getSubmissionAgain ids, [])
  | .getSubmissionAgain ids =>
    match ch.storeErr with
    | some e => some (w, .returned (some e), [])
    | none =>
      match w.store.getSubmission subID with
      | none => some (w, .returned (some ("submission disappeared: " ++ subID)), [])
      | some sub => some (w, .putResultIDs { sub with resultIDs := ids }, [])
  | .putResultIDs sub =>
    match ch.storeErr with
    | some e => some (w, .returned (some e), [])
    | none =>
      let w := { w with store := w.store.putSubmission sub }
      if sub.policyRef.getD "" ≠ "" then some (w, .getResults sub, [])
      else some (w, .complete sub .findingsOnly none, [])
  | .getResults sub =>
    match ch.storeErr with
    | some e => some (w, .returned (some e), [])
    | none =>
      let results := w.store.getResultsForSubmission ch.order sub.id
      match o.aggregator with
      | none => some (w, .evaluate sub results none, [])
      | some a =>
        match a.aggregate env.mergedRand env.mergedAt results with
        | .error _ => some (w, .evaluate sub results none, [])
        | .ok m => some (w, .putMerged sub results { m with submissionID := sub.id }, [])
  | .putMerged sub results merged =>
    -- a merged view that cannot be stored is still used
    let store := if ch.storeErr = none then w.store.putMergedResult merged else w.store
    some ({ w with store := store }, .evaluate sub results (some merged), [])
  | .evaluate sub results merged =>
    match o.evaluate env.eval sub results merged with
    | .error e => some (w, .putFailed sub e, [])
    | .ok decision => some (w, .putDecision sub decision, [])
  | .putDecision sub decision =>
    match ch.storeErr with
    | some e => some (w, .returned (some e), [])
    | none =>
      let w := { w with store := w.store.putDecision decision }
      let sub := { sub with decisionID := some decision.id }
      if decision.decision = .defer then some (w, .putDeferred sub decision, [])
      else
        some (w, .complete sub .decisionProduced (some decision.id),
          [submissionEvent "policy-decision.created" sub.id
            [("decision_id", decision.id), ("decision", decision.decision.text)]])
  | .putDeferred sub decision =>
    match ch.storeErr with
    | some e => some (w, .returned (some e), [])
    | none =>
      some ({ w with store := w.store.putSubmission (deferred sub decision) }, .returned none,
        [submissionEvent "submission.deferred" sub.id
          [("decision_id", decision.id), ("decision", decision.decision.text)]])
  | .complete sub reason decisionID =>
    let sub := ended sub .completed reason ch.now
    let sub := if decisionID = none then sub else { sub with decisionID := decisionID }
    match ch.storeErr with
    | some e => some (w, .returned (some e), [])
    | none =>
      some ({ w with store := w.store.putSubmission sub }, .returned none,
        [submissionEvent "submission.completed" sub.id
          (("completion_reason", reason.text) ::
            decisionID.toList.map fun id => ("decision_id", id))])
  | .putFailed sub e =>
    -- the error of this write is dropped
    let store :=
      if ch.storeErr = none then w.store.putSubmission (ended sub .failed .failed ch.now)
      else w.store
    some ({ w with store := store }, .returned (some e),
      [submissionEvent "submission.failed" sub.id [("error", e)]])
  | .interruptedGet cause =>
    match ch.storeErr with
    | some _ => some (w, .returned (some cause), [])
    | none =>
      match w.store.getSubmission subID with
      | none => some (w, .returned (some cause), [])
      | some sub =>
        if isTerminal sub.status then some (w, .returned (some cause), [])
        else some (w, .interruptedPut sub cause, [])
  | .interruptedPut sub cause =>
    let store :=
      if ch.storeErr = none then w.store.putSubmission (ended sub .failed .interrupted ch.now)
      else w.store
    some ({ w with store := store }, .returned (some cause),
      [submissionEvent "submission.failed" sub.id
        [("error", cause), ("completion_reason", CompletionReason.interrupted.text)]])
  | .returned _ => none

/-- One step of a run: the next emission, or else the next call. -/
def Run.step (o : Orchestrator) (env : RunEnv) (ch : Choice) (w : World) (r : Run) :
    Option (World × Run) :=
  match r.outbox with
  | e :: rest => some (w.emit ch.storeErr ch.randHex ch.now e, { r with outbox := rest })
  | [] =>
    (pcStep o env ch r.subID w r.pc).map fun (w, pc, outbox) =>
      (w, { r with pc := pc, outbox := outbox })

/-! ## A gateway to evaluate on -/

/-- The policy engine of the YAML documents; it is merge aware. -/
def yamlEngine (e : Policy.Engine) : PolicyEngine where
  evaluate := e.evaluate
  evaluateMerged := some e.evaluateMerged

/-- One provider that takes every artifact for the capability `scan`, and
a document that defers as long as a provider fails. -/
def Orchestrator.plain : Orchestrator where
  providers :=
    [{ id := "p"
       capabilities :=
        [{ id := "scan", version := "1", inputProfiles := [{ id := "any", requires := [] }] }] }]
  policy := yamlEngine
    { policies := Finmap.singleton "default"
        { apiVersion := "scintx.policy/v1", kind := "Policy"
          metadata := { id := "default", version := "1" }, spec := { onError := "defer" } }
      dir := "" }

/-- A run in which nothing is cached, every call of a provider ends as
given, and random values are made from `tag`. -/
def RunEnv.plain (tag : String) (outcome : Except String ProviderResult) : RunEnv where
  cacheGet _ := none
  assess _ := outcome
  resultRand i := tag ++ toString i
  clock _ := 0
  mergedRand := tag
  mergedAt := 0
  eval := { randHex := tag, now := 0, resumeFrom := 0 }

end Given

/-- A submission for the capability `scan`. -/
def scanSubmission : Submission where
  id := "sub_a"
  status := .accepted
  requestedCapabilities := ["scan"]
  policyRef := some "default"

/-- A store with that submission. -/
def scanWorld : World where
  store := ({} : MemoryStore).putSubmission scanSubmission

end Scintx.Orchestrator
