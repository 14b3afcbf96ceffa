/-
Scintx.Api.Records — the records of the gateway with ALL their fields
(`api/types.go`, `api/merged.go`), and their copies (`api/clone.go`).

`Api.Types` has the fields that some function reads. A copy through JSON
reads every field, and any one of them can fail it: a score or percentile
that is no finite number, an instant outside the years JSON can write, a
value of a `map[string]any` that has no JSON. What a copy makes of a
record is `JsonCopy`, field by field.

A Go string is a text, or bytes that are no UTF-8, for which JSON gives
back another text; a map, or a value of type `any`, may likewise hold
what JSON changes or refuses. Each of these is a `Leaf`. A nil slice or
map is the empty one, as `omitempty` has it.

The zero value of a type is its default, `{}`.
-/
import Scintx.Api.Clone
import Scintx.Lib.Calendar
import Scintx.Lib.JsonCopy

namespace Scintx.Api.Record

open Scintx.Lib

abbrev Text := Leaf String

abbrev TextMap := Leaf (GoMap String)

/-- `any`. -/
abbrev Any := Leaf AnyValue

/-- `map[string]any`. -/
abbrev AnyMap := Leaf (GoMap AnyValue)

/-- A `time.Time`. -/
structure Instant where
  time : Time := 0

/-- `Time.MarshalJSON` refuses a year that has not four digits. -/
def Instant.encodable (t : Instant) : Bool :=
  decide (Calendar.FourDigits (Calendar.seconds t.time))

instance : JsonCopy Instant := .ofEncodable Instant.encodable

/-! ## Artifacts and submissions -/

structure ResourceReference where
  uri : Text := .same ""
  mediaType : Text := .same ""
  digests : TextMap := .same ∅
  format : Text := .same ""
  formatVersion : Text := .same ""
  expiresAt : Text := .same ""
  extensions : AnyMap := .same ∅

instance : JsonCopy ResourceReference := .ofFields
  ⟨fun v => (v.uri, v.mediaType, v.digests, v.format, v.formatVersion, v.expiresAt, v.extensions),
    fun (a, b, c, d, e, f, g) => ⟨a, b, c, d, e, f, g⟩,
    fun _ => rfl, fun _ => rfl⟩

structure ArtifactRef where
  purl : Option Text := none
  digests : TextMap := .same ∅
  contentRef : Option ResourceReference := none

instance : JsonCopy ArtifactRef := .ofFields
  ⟨fun v => (v.purl, v.digests, v.contentRef),
    fun (a, b, c) => ⟨a, b, c⟩,
    fun _ => rfl, fun _ => rfl⟩

structure Artifact where
  purl : Option Text := none
  digests : TextMap := .same ∅
  contentRef : Option ResourceReference := none
  sbomRefs : List ResourceReference := []
  provenanceRefs : List ResourceReference := []
  extensions : AnyMap := .same ∅
  /-- Never serialized: the tag is `json:"-"`. -/
  content : Unserialized UInt8 := {}

instance : JsonCopy Artifact := .ofFields
  ⟨fun v => (v.purl, v.digests, v.contentRef, v.sbomRefs, v.provenanceRefs, v.extensions,
    v.content),
    fun (a, b, c, d, e, f, g) => ⟨a, b, c, d, e, f, g⟩,
    fun _ => rfl, fun _ => rfl⟩

structure Submission where
  id : Text := .same ""
  schemaVersion : Text := .same ""
  artifact : Artifact := {}
  requestedCapabilities : List Text := []
  providerSelectors : AnyMap := .same ∅
  policyRef : Option Text := none
  status : Text := .same ""
  completionReason : Option Text := none
  createdAt : Instant := {}
  completedAt : Option Instant := none
  resultIDs : List Text := []
  decisionID : Option Text := none
  resumeAt : Option Instant := none
  extensions : AnyMap := .same ∅

instance : JsonCopy Submission := .ofFields
  ⟨fun v => (v.id, v.schemaVersion, v.artifact, v.requestedCapabilities, v.providerSelectors,
    v.policyRef, v.status, v.completionReason, v.createdAt, v.completedAt, v.resultIDs,
    v.decisionID, v.resumeAt, v.extensions),
    fun (a, b, c, d, e, f, g, h, i, j, k, l, m, n) => ⟨a, b, c, d, e, f, g, h, i, j, k, l, m, n⟩,
    fun _ => rfl, fun _ => rfl⟩

/-! ## Provider results -/

structure VerdictDerivationEntry where
  findingID : Text := .same ""
  weight : Text := .same ""

instance : JsonCopy VerdictDerivationEntry := .ofFields
  ⟨fun v => (v.findingID, v.weight), fun (a, b) => ⟨a, b⟩, fun _ => rfl, fun _ => rfl⟩

structure VerdictDerivation where
  drivenBy : List VerdictDerivationEntry := []
  summary : Text := .same ""

instance : JsonCopy VerdictDerivation := .ofFields
  ⟨fun v => (v.drivenBy, v.summary), fun (a, b) => ⟨a, b⟩, fun _ => rfl, fun _ => rfl⟩

structure Verdict where
  value : Text := .same ""
  origin : Text := .same ""
  rule : Text := .same ""
  derivation : Option VerdictDerivation := none

instance : JsonCopy Verdict := .ofFields
  ⟨fun v => (v.value, v.origin, v.rule, v.derivation),
    fun (a, b, c, d) => ⟨a, b, c, d⟩,
    fun _ => rfl, fun _ => rfl⟩

structure ProviderError where
  code : Text := .same ""
  message : Text := .same ""
  detail : AnyMap := .same ∅

instance : JsonCopy ProviderError := .ofFields
  ⟨fun v => (v.code, v.message, v.detail), fun (a, b, c) => ⟨a, b, c⟩, fun _ => rfl, fun _ => rfl⟩

structure Execution where
  status : Text := .same ""
  startedAt : Instant := {}
  finishedAt : Instant := {}
  error : Option ProviderError := none

instance : JsonCopy Execution := .ofFields
  ⟨fun v => (v.status, v.startedAt, v.finishedAt, v.error),
    fun (a, b, c, d) => ⟨a, b, c, d⟩,
    fun _ => rfl, fun _ => rfl⟩

structure CacheInfo where
  hit : Bool := false
  originalResultID : Text := .same ""
  validUntil : Option Instant := none
  freshnessBasis : Text := .same ""

instance : JsonCopy CacheInfo := .ofFields
  ⟨fun v => (v.hit, v.originalResultID, v.validUntil, v.freshnessBasis),
    fun (a, b, c, d) => ⟨a, b, c, d⟩,
    fun _ => rfl, fun _ => rfl⟩

structure ProviderRef where
  id : Text := .same ""
  version : Text := .same ""

instance : JsonCopy ProviderRef := .ofFields
  ⟨fun v => (v.id, v.version), fun (a, b) => ⟨a, b⟩, fun _ => rfl, fun _ => rfl⟩

structure TypedIdentifier where
  scheme : Text := .same ""
  value : Text := .same ""
  relation : Text := .same ""

instance : JsonCopy TypedIdentifier := .ofFields
  ⟨fun v => (v.scheme, v.value, v.relation),
    fun (a, b, c) => ⟨a, b, c⟩,
    fun _ => rfl, fun _ => rfl⟩

structure Assessment where
  status : Text := .same ""
  justification : Text := .same ""
  detail : Text := .same ""

instance : JsonCopy Assessment := .ofFields
  ⟨fun v => (v.status, v.justification, v.detail),
    fun (a, b, c) => ⟨a, b, c⟩,
    fun _ => rfl, fun _ => rfl⟩

structure CweRef where
  scheme : Text := .same ""
  id : Text := .same ""

instance : JsonCopy CweRef := .ofFields
  ⟨fun v => (v.scheme, v.id), fun (a, b) => ⟨a, b⟩, fun _ => rfl, fun _ => rfl⟩

structure DerivationInfo where
  method : Text := .same ""

instance : JsonCopy DerivationInfo :=
  .ofFields ⟨fun v => v.method, fun a => ⟨a⟩, fun _ => rfl, fun _ => rfl⟩

structure SeverityObservation where
  scheme : Text := .same ""
  version : Text := .same ""
  score : Option Float64 := none
  level : Text := .same ""
  vector : Text := .same ""
  source : Text := .same ""
  derivation : Option DerivationInfo := none

instance : JsonCopy SeverityObservation := .ofFields
  ⟨fun v => (v.scheme, v.version, v.score, v.level, v.vector, v.source, v.derivation),
    fun (a, b, c, d, e, f, g) => ⟨a, b, c, d, e, f, g⟩,
    fun _ => rfl, fun _ => rfl⟩

structure Metric where
  scheme : Text := .same ""
  value : Any := .same (.json "null")
  version : Text := .same ""
  percentile : Option Float64 := none
  observedAt : Option Instant := none
  extensions : AnyMap := .same ∅

instance : JsonCopy Metric := .ofFields
  ⟨fun v => (v.scheme, v.value, v.version, v.percentile, v.observedAt, v.extensions),
    fun (a, b, c, d, e, f) => ⟨a, b, c, d, e, f⟩,
    fun _ => rfl, fun _ => rfl⟩

structure Remediation where
  summary : Text := .same ""
  detail : Text := .same ""
  references : List Text := []

instance : JsonCopy Remediation := .ofFields
  ⟨fun v => (v.summary, v.detail, v.references),
    fun (a, b, c) => ⟨a, b, c⟩,
    fun _ => rfl, fun _ => rfl⟩

structure Finding where
  id : Text := .same ""
  type : Text := .same ""
  title : Text := .same ""
  description : Text := .same ""
  identifiers : List TypedIdentifier := []
  subjects : List ArtifactRef := []
  subjectOrigin : Text := .same ""
  subjectPath : List Text := []
  severity : List SeverityObservation := []
  weaknesses : List CweRef := []
  assessment : Option Assessment := none
  references : List Text := []
  evidence : List ResourceReference := []
  remediation : Option Remediation := none
  fingerprints : TextMap := .same ∅
  metrics : List Metric := []
  extensions : AnyMap := .same ∅

instance : JsonCopy Finding := .ofFields
  ⟨fun v => (v.id, v.type, v.title, v.description, v.identifiers, v.subjects, v.subjectOrigin,
    v.subjectPath, v.severity, v.weaknesses, v.assessment, v.references, v.evidence,
    v.remediation, v.fingerprints, v.metrics, v.extensions),
    fun (a, b, c, d, e, f, g, h, i, j, k, l, m, n, o, p, q) =>
      ⟨a, b, c, d, e, f, g, h, i, j, k, l, m, n, o, p, q⟩,
    fun _ => rfl, fun _ => rfl⟩

structure ProviderResult where
  id : Text := .same ""
  schemaVersion : Text := .same ""
  submissionID : Text := .same ""
  provider : ProviderRef := {}
  capabilities : List Text := []
  capabilityManifestDigest : Text := .same ""
  execution : Execution := {}
  verdict : Option Verdict := none
  findings : List Finding := []
  rawResult : Option ResourceReference := none
  cache : Option CacheInfo := none
  extensions : AnyMap := .same ∅

instance : JsonCopy ProviderResult := .ofFields
  ⟨fun v => (v.id, v.schemaVersion, v.submissionID, v.provider, v.capabilities,
    v.capabilityManifestDigest, v.execution, v.verdict, v.findings, v.rawResult, v.cache,
    v.extensions),
    fun (a, b, c, d, e, f, g, h, i, j, k, l) => ⟨a, b, c, d, e, f, g, h, i, j, k, l⟩,
    fun _ => rfl, fun _ => rfl⟩

/-! ## Merged findings -/

structure FindingSource where
  providerID : Text := .same ""
  resultID : Text := .same ""
  findingID : Text := .same ""

instance : JsonCopy FindingSource := .ofFields
  ⟨fun v => (v.providerID, v.resultID, v.findingID),
    fun (a, b, c) => ⟨a, b, c⟩,
    fun _ => rfl, fun _ => rfl⟩

structure SeverityConsensus where
  strategy : Text := .same ""
  sourceCount : Nat := 0
  conflicts : List Text := []

instance : JsonCopy SeverityConsensus := .ofFields
  ⟨fun v => (v.strategy, v.sourceCount, v.conflicts),
    fun (a, b, c) => ⟨a, b, c⟩,
    fun _ => rfl, fun _ => rfl⟩

structure MergedFinding where
  correlationKey : Text := .same ""
  type : Text := .same ""
  title : Text := .same ""
  identifiers : List TypedIdentifier := []
  sources : List FindingSource := []
  severity : List SeverityObservation := []
  assessment : Option Assessment := none
  consensus : SeverityConsensus := {}

instance : JsonCopy MergedFinding := .ofFields
  ⟨fun v => (v.correlationKey, v.type, v.title, v.identifiers, v.sources, v.severity,
    v.assessment, v.consensus),
    fun (a, b, c, d, e, f, g, h) => ⟨a, b, c, d, e, f, g, h⟩,
    fun _ => rfl, fun _ => rfl⟩

structure MergedResult where
  id : Text := .same ""
  submissionID : Text := .same ""
  inputResultIDs : List Text := []
  findings : List MergedFinding := []
  mergedAt : Instant := {}

instance : JsonCopy MergedResult := .ofFields
  ⟨fun v => (v.id, v.submissionID, v.inputResultIDs, v.findings, v.mergedAt),
    fun (a, b, c, d, e) => ⟨a, b, c, d, e⟩,
    fun _ => rfl, fun _ => rfl⟩

/-! ## Policy decisions -/

structure SeverityRef where
  scheme : Text := .same ""
  version : Text := .same ""
  score : Option Float64 := none

instance : JsonCopy SeverityRef := .ofFields
  ⟨fun v => (v.scheme, v.version, v.score),
    fun (a, b, c) => ⟨a, b, c⟩,
    fun _ => rfl, fun _ => rfl⟩

structure DecisionReason where
  code : Text := .same ""
  resultID : Text := .same ""
  findingID : Text := .same ""
  severityRef : Option SeverityRef := none
  message : Text := .same ""

instance : JsonCopy DecisionReason := .ofFields
  ⟨fun v => (v.code, v.resultID, v.findingID, v.severityRef, v.message),
    fun (a, b, c, d, e) => ⟨a, b, c, d, e⟩,
    fun _ => rfl, fun _ => rfl⟩

structure PolicyRef where
  id : Text := .same ""
  version : Text := .same ""
  digest : Text := .same ""

instance : JsonCopy PolicyRef := .ofFields
  ⟨fun v => (v.id, v.version, v.digest), fun (a, b, c) => ⟨a, b, c⟩, fun _ => rfl, fun _ => rfl⟩

structure PolicyDecision where
  id : Text := .same ""
  submissionID : Text := .same ""
  decision : Text := .same ""
  policy : PolicyRef := {}
  evaluatedAt : Instant := {}
  inputResultIDs : List Text := []
  reasons : List DecisionReason := []
  resumeAt : Option Instant := none
  resumeOn : Text := .same ""
  extensions : AnyMap := .same ∅

instance : JsonCopy PolicyDecision := .ofFields
  ⟨fun v => (v.id, v.submissionID, v.decision, v.policy, v.evaluatedAt, v.inputResultIDs,
    v.reasons, v.resumeAt, v.resumeOn, v.extensions),
    fun (a, b, c, d, e, f, g, h, i, j) => ⟨a, b, c, d, e, f, g, h, i, j⟩,
    fun _ => rfl, fun _ => rfl⟩

/-! ## Copies -/

/-- `CloneJSON`: the zero value stands in for a copy that fails. -/
@[reducible] def clone {α : Type} [JsonCopy α] (zero : α) (hzero : JsonCopy.Kept zero) :
    CloneJSON α where
  cloneJSON v := (JsonCopy.copy v).getD zero
  cloneJSON_cloneJSON v := by
    cases hcopy : JsonCopy.copy v with
    | none => rw [Option.getD_none, JsonCopy.copy_of_kept hzero, Option.getD_some]
    | some w => rw [Option.getD_some, JsonCopy.copy_of_kept (JsonCopy.kept_of_copy hcopy),
        Option.getD_some]

instance : CloneJSON Submission := clone {} (JsonCopy.kept_iff.mp rfl)

instance : CloneJSON ProviderResult := clone {} (JsonCopy.kept_iff.mp rfl)

instance : CloneJSON MergedResult := clone {} (JsonCopy.kept_iff.mp rfl)

instance : CloneJSON PolicyDecision := clone {} (JsonCopy.kept_iff.mp rfl)

/-- A record is its copy just if JSON keeps every leaf of it. -/
theorem clone_eq_self_iff {α : Type} [JsonCopy α] {zero : α} (hzero : JsonCopy.Kept zero)
    {v : α} : (JsonCopy.copy v).getD zero = v ↔ JsonCopy.Kept v := by
  constructor
  · intro h
    cases hcopy : JsonCopy.copy v with
    | none =>
      rw [hcopy, Option.getD_none] at h
      exact h ▸ hzero
    | some w =>
      rw [hcopy, Option.getD_some] at h
      exact h ▸ JsonCopy.kept_of_copy hcopy
  · intro h
    rw [JsonCopy.copy_of_kept h, Option.getD_some]

theorem Submission.cloneJSON_eq_iff {s : Submission} : cloneJSON s = s ↔ JsonCopy.Kept s :=
  clone_eq_self_iff (JsonCopy.kept_iff.mp rfl)

theorem ProviderResult.cloneJSON_eq_iff {r : ProviderResult} :
    cloneJSON r = r ↔ JsonCopy.Kept r :=
  clone_eq_self_iff (JsonCopy.kept_iff.mp rfl)

theorem MergedResult.cloneJSON_eq_iff {m : MergedResult} : cloneJSON m = m ↔ JsonCopy.Kept m :=
  clone_eq_self_iff (JsonCopy.kept_iff.mp rfl)

theorem PolicyDecision.cloneJSON_eq_iff {d : PolicyDecision} :
    cloneJSON d = d ↔ JsonCopy.Kept d :=
  clone_eq_self_iff (JsonCopy.kept_iff.mp rfl)

end Scintx.Api.Record
