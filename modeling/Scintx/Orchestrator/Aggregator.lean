/-
Scintx.Orchestrator.Aggregator — the cross-provider aggregator
(`internal/scintx/aggregator.go`).

Findings of completed results are grouped by a correlation key, in order
of first appearance, and each group becomes one merged finding. The
source keeps a map beside a slice of keys; `Lib.groupBy` is that pair.

A group is never empty, so the code's `pairs[0]` is always there: the
functions over a group take its first pair and the rest.

`sha256` is whatever `GoStd` says; the keys are compared, never inverted.
-/
import Scintx.Api.Types
import Scintx.Lib.Grouping

namespace Scintx.Orchestrator

open Scintx.Lib Scintx.Api

variable [GoStd]

/-- One (result, finding) observation. -/
structure SourcePair where
  result : ProviderResult
  finding : Finding
  deriving DecidableEq

/-- Any text is a strategy: `"mean"` and `"trust_weighted"` are
recognised, every other one means `"max"`. -/
structure DefaultAggregator where
  strategy : String
  providerWeights : GoMap Float64 := ∅

def newDefaultAggregator : DefaultAggregator := { strategy := "max" }

/-! ## Correlation keys -/

/-- The PURL of the first subject that has a non-empty one. -/
def firstSubjectPURL (f : Finding) : String :=
  (f.subjects.findSome? fun s => s.purl.filter (· ≠ "")).getD ""

/-- `strings.ToUpper(strings.TrimSpace(v))`. -/
def normalize (v : String) : String :=
  toUpper (trimSpace v)

structure IdentifierScan where
  seen : List String := []
  cves : List String := []
  others : List String := []

/-- One round of the loop `anchorIdentifiers` and `canonicalIdentifiers`
share. -/
def IdentifierScan.round (st : IdentifierScan) (id : TypedIdentifier) : IdentifierScan :=
  let norm := normalize id.value
  if norm = "" ∨ norm ∈ st.seen then st
  else if hasPrefix norm "CVE-" then
    { st with seen := norm :: st.seen, cves := st.cves ++ [norm] }
  else { st with seen := norm :: st.seen, others := st.others ++ [norm] }

def scanIdentifiers (ids : List TypedIdentifier) : IdentifierScan :=
  ids.foldl IdentifierScan.round {}

def anchorIdentifiers (ids : List TypedIdentifier) : List String :=
  let scan := scanIdentifiers ids
  let cves := sortStrings scan.cves
  if cves ≠ [] then cves else sortStrings scan.others

def canonicalIdentifiers (ids : List TypedIdentifier) : List String :=
  let scan := scanIdentifiers ids
  sortStrings scan.cves ++ sortStrings scan.others

def correlationKey (r : ProviderResult) (f : Finding) : String :=
  let subjectPURL := firstSubjectPURL f
  if f.identifiers ≠ [] then
    hashStr ("sca/v1|" ++ subjectPURL ++ "|" ++ join (anchorIdentifiers f.identifiers) ",")
  else if f.type = "secret" then
    hashStr ("secret/v1|" ++ f.type ++ "|" ++ subjectPURL)
  else hashStr (r.provider.id ++ "|" ++ f.id)

def SourcePair.key (p : SourcePair) : String :=
  correlationKey p.result p.finding

/-! ## Merging a group -/

/-- The status of the first source whose status is one of `wanted`, with
its justification and detail. -/
def firstContext (pairs : List SourcePair) (wanted : AssessmentStatus → Bool) :
    String × String :=
  match pairs.findSome? fun p => p.finding.assessment.filter fun a => wanted a.status with
  | some a => (a.justification, a.detail)
  | none => ("", "")

def reconcileAssessment (pairs : List SourcePair) : Option Assessment × List String :=
  let obs := pairs.filterMap fun p => p.finding.assessment.map fun a => (p.result.id, a.status)
  if obs = [] then (none, [])
  else
    let hasAffected := obs.any fun o => o.2 = .affected
    let hasUnderInvestigation := obs.any fun o => o.2 = .underInvestigation
    let allNotAffected := obs.all fun o => o.2 = .notAffected
    let ctx := firstContext pairs fun s => s = .affected ∨ s = .underInvestigation
    let result (status : AssessmentStatus) (ctx : String × String) : Option Assessment :=
      some { status := status, justification := ctx.1, detail := ctx.2 }
    if hasAffected ∧ allNotAffected then (result .affected ctx, [])
    else if hasAffected then
      (result .affected ctx, (obs.filter fun o => o.2 = .notAffected).map (·.1))
    else if hasUnderInvestigation then (result .underInvestigation ctx, [])
    else if allNotAffected then
      -- the justification of the first `not_affected` source replaces the other one
      (result .notAffected (firstContext pairs fun s => s = .notAffected), [])
    else (result .underInvestigation ctx, [])

/-- A severity observation with the trust weight of its provider. -/
structure ScoredObservation where
  obs : SeverityObservation
  weight : Float64
  deriving DecidableEq

/-- The first entry whose score is not below the largest one. If the
first score is not a number the loop never leaves it, nothing compares
with it, and the zero observation is left. -/
def maxObservation (first : ScoredObservation × Float64)
    (rest : List (ScoredObservation × Float64)) : SeverityObservation :=
  let finalScore := rest.foldl (fun m e => if Float64.lt m e.2 then e.2 else m) first.2
  match (first :: rest).find? fun e => Float64.le finalScore e.2 with
  | some e => e.1.obs
  | none => { scheme := "" }

def mergeSchemeObservations (e₀ : ScoredObservation) (es : List ScoredObservation)
    (strategy : String) : SeverityObservation :=
  match (e₀ :: es).filterMap fun e => e.obs.score.map fun x => (e, x) with
  | [] => e₀.obs
  | first :: rest =>
    let aggregated (score : Float64) : SeverityObservation :=
      { scheme := first.1.obs.scheme, version := first.1.obs.version, score := some score
        level := first.1.obs.level, source := "aggregated", derivation := some strategy }
    if strategy = "mean" then
      let sum := (first :: rest).foldl (fun s e => s.add e.2) Float64.zero
      aggregated (sum.div (Float64.ofNat (rest.length + 1)))
    else if strategy = "trust_weighted" then
      let weightSum := (first :: rest).foldl (fun s e => s.add e.1.weight) Float64.zero
      let wScore := (first :: rest).foldl (fun s e => s.add (e.2.mul e.1.weight)) Float64.zero
      aggregated (if Float64.lt .zero weightSum then wScore.div weightSum else .zero)
    else maxObservation first rest

/-- The observations of a group, each with its provider's weight. -/
def weighted (weights : GoMap Float64) (p : SourcePair) : List ScoredObservation :=
  p.finding.severity.map fun sev =>
    { obs := sev, weight := (weights.lookup p.result.provider.id).getD Float64.one }

def ScoredObservation.schemeKey (e : ScoredObservation) : String × String :=
  (e.obs.scheme, e.obs.version)

def computeSeverity (pairs : List SourcePair) (strategy : String) (weights : GoMap Float64) :
    List SeverityObservation :=
  (groupBy ScoredObservation.schemeKey (pairs.flatMap (weighted weights))).filterMap
    fun (key, entries) =>
      match entries with
      | [] => none
      | e₀ :: es =>
        some { mergeSchemeObservations e₀ es strategy with scheme := key.1, version := key.2 }

def mergeIdentifiers (pairs : List SourcePair) : List TypedIdentifier :=
  let all := pairs.flatMap fun p => p.finding.identifiers
  (canonicalIdentifiers all).map fun norm =>
    (all.find? fun id => normalize id.value = norm).getD { scheme := "", value := "" }

def SourcePair.source (p : SourcePair) : FindingSource :=
  { providerID := p.result.provider.id, resultID := p.result.id, findingID := p.finding.id }

def buildMergedFinding (key : String) (p₀ : SourcePair) (ps : List SourcePair)
    (strategy : String) (weights : GoMap Float64) : MergedFinding :=
  let pairs := p₀ :: ps
  let title := ps.foldl (fun title p =>
    if title.utf8ByteSize < p.finding.title.utf8ByteSize then p.finding.title else title)
    p₀.finding.title
  let reconciled := reconcileAssessment pairs
  { correlationKey := key
    type := p₀.finding.type
    title := title
    identifiers := mergeIdentifiers pairs
    sources := pairs.map SourcePair.source
    severity := computeSeverity pairs strategy weights
    assessment := reconciled.1
    consensus :=
      { strategy := strategy, sourceCount := pairs.length, conflicts := reconciled.2 } }

/-! ## Aggregation -/

/-- The observations of a result: only completed ones are aggregated. -/
def observationsOf (r : ProviderResult) : List SourcePair :=
  if r.execution.status ≠ .completed then []
  else r.findings.map fun f => { result := r, finding := f }

def observations (results : List ProviderResult) : List SourcePair :=
  results.flatMap observationsOf

/-- The submission id of the first result that has one. -/
def submissionIDFrom (results : List ProviderResult) : String :=
  ((results.find? fun r => r.submissionID ≠ "").map (·.submissionID)).getD ""

/-- `Aggregate`, with the random id and the clock reading it takes. -/
def DefaultAggregator.aggregate (a : DefaultAggregator) (randHex : String) (now : Time)
    (results : List ProviderResult) : MergedResult :=
  let strategy := if a.strategy = "" then "max" else a.strategy
  { id := "mgd_" ++ randHex
    submissionID := submissionIDFrom results
    inputResultIDs := results.map (·.id)
    findings :=
      (groupBy SourcePair.key (observations results)).filterMap fun (key, pairs) =>
        match pairs with
        | [] => none
        | p₀ :: ps => some (buildMergedFinding key p₀ ps strategy a.providerWeights)
    mergedAt := now }

end Scintx.Orchestrator
