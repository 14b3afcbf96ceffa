/-
Scintx.Api.Embedding — the records of `Api.Types` among the records with
all their fields.

A record of `Api.Types` is one whose other fields have their zero values
(`record`). Copies agree on these, up to one point that `Api.Clone` leaves
out: an instant in a year JSON cannot write (`Dated`).
-/
import Scintx.Api.Records

namespace Scintx.Api

open Scintx.Lib

/-! ## Artifacts and submissions -/

def ResourceReference.record (r : ResourceReference) : Record.ResourceReference where
  uri := .same r.uri
  mediaType := .same r.mediaType
  digests := .same r.digests
  format := .same r.format
  formatVersion := .same r.formatVersion
  expiresAt := .same r.expiresAt
  extensions := .same r.extensions

def ArtifactRef.record (r : ArtifactRef) : Record.ArtifactRef where
  purl := r.purl.map .same

def Artifact.record (a : Artifact) : Record.Artifact where
  purl := a.purl.map .same
  digests := .same a.digests
  contentRef := a.contentRef.map ResourceReference.record
  sbomRefs := a.sbomRefs.map ResourceReference.record
  provenanceRefs := a.provenanceRefs.map ResourceReference.record
  extensions := .same a.extensions
  content := { val := a.content }

def Submission.record (s : Submission) : Record.Submission where
  id := .same s.id
  schemaVersion := .same s.schemaVersion
  artifact := s.artifact.record
  requestedCapabilities := s.requestedCapabilities.map .same
  policyRef := s.policyRef.map .same
  status := .same s.status.text
  completionReason := s.completionReason.map fun reason => .same reason.text
  createdAt := { time := s.createdAt }
  completedAt := s.completedAt.map fun t => { time := t }
  resultIDs := s.resultIDs.map .same
  decisionID := s.decisionID.map .same
  resumeAt := s.resumeAt.map fun t => { time := t }

/-! ## Provider results -/

def Verdict.record (v : Verdict) : Record.Verdict where
  value := .same v.value.text

def ProviderErrorCode.text : ProviderErrorCode → String
  | transport => "transport_error"
  | provider5xx => "provider_5xx"
  | provider4xx => "provider_4xx"
  | normalization => "normalization_error"
  | semantic => "semantic_error"
  | unsupportedVersion => "unsupported_version"
  | timeout => "timeout"
  | other s _ => s

def ProviderError.record (e : ProviderError) : Record.ProviderError where
  code := .same e.code.text
  message := .same e.message

def Execution.record (e : Execution) : Record.Execution where
  status := .same e.status.text
  startedAt := { time := e.startedAt }
  finishedAt := { time := e.finishedAt }
  error := e.error.map ProviderError.record

def CacheInfo.record (c : CacheInfo) : Record.CacheInfo where
  hit := c.hit
  originalResultID := .same c.originalResultID
  validUntil := c.validUntil.map fun t => { time := t }
  freshnessBasis := .same c.freshnessBasis

def ProviderRef.record (p : ProviderRef) : Record.ProviderRef where
  id := .same p.id
  version := .same p.version

def TypedIdentifier.record (i : TypedIdentifier) : Record.TypedIdentifier where
  scheme := .same i.scheme
  value := .same i.value

def Assessment.record (a : Assessment) : Record.Assessment where
  status := .same a.status.text
  justification := .same a.justification
  detail := .same a.detail

def SeverityObservation.record (s : SeverityObservation) : Record.SeverityObservation where
  scheme := .same s.scheme
  version := .same s.version
  score := s.score
  level := .same s.level
  vector := .same s.vector
  source := .same s.source
  derivation := s.derivation.map fun method => { method := .same method }

def Finding.record (f : Finding) : Record.Finding where
  id := .same f.id
  type := .same f.type
  title := .same f.title
  identifiers := f.identifiers.map TypedIdentifier.record
  subjects := f.subjects.map ArtifactRef.record
  severity := f.severity.map SeverityObservation.record
  assessment := f.assessment.map Assessment.record

def ProviderResult.record (r : ProviderResult) : Record.ProviderResult where
  id := .same r.id
  submissionID := .same r.submissionID
  provider := r.provider.record
  execution := r.execution.record
  verdict := r.verdict.map Verdict.record
  findings := r.findings.map Finding.record
  cache := r.cache.map CacheInfo.record

/-! ## Merged findings and decisions -/

def FindingSource.record (s : FindingSource) : Record.FindingSource where
  providerID := .same s.providerID
  resultID := .same s.resultID
  findingID := .same s.findingID

def SeverityConsensus.record (c : SeverityConsensus) : Record.SeverityConsensus where
  strategy := .same c.strategy
  sourceCount := c.sourceCount
  conflicts := c.conflicts.map .same

def MergedFinding.record (m : MergedFinding) : Record.MergedFinding where
  correlationKey := .same m.correlationKey
  type := .same m.type
  title := .same m.title
  identifiers := m.identifiers.map TypedIdentifier.record
  sources := m.sources.map FindingSource.record
  severity := m.severity.map SeverityObservation.record
  assessment := m.assessment.map Assessment.record
  consensus := m.consensus.record

def MergedResult.record (m : MergedResult) : Record.MergedResult where
  id := .same m.id
  submissionID := .same m.submissionID
  inputResultIDs := m.inputResultIDs.map .same
  findings := m.findings.map MergedFinding.record
  mergedAt := { time := m.mergedAt }

def SeverityRef.record (r : SeverityRef) : Record.SeverityRef where
  scheme := .same r.scheme
  version := .same r.version
  score := r.score

def DecisionReason.record (r : DecisionReason) : Record.DecisionReason where
  code := .same r.code
  resultID := .same r.resultID
  findingID := .same r.findingID
  severityRef := r.severityRef.map SeverityRef.record
  message := .same r.message

def PolicyRef.record (p : PolicyRef) : Record.PolicyRef where
  id := .same p.id
  version := .same p.version

def PolicyDecision.record (d : PolicyDecision) : Record.PolicyDecision where
  id := .same d.id
  submissionID := .same d.submissionID
  decision := .same d.decision.text
  policy := d.policy.record
  evaluatedAt := { time := d.evaluatedAt }
  inputResultIDs := d.inputResultIDs.map .same
  reasons := d.reasons.map DecisionReason.record
  resumeAt := d.resumeAt.map fun t => { time := t }
  resumeOn := .same d.resumeOn
  extensions := .same d.extensions

/-! ## What JSON keeps of them -/

/-- JSON can write the year. -/
def Dated (t : Time) : Prop := Calendar.FourDigits (Calendar.seconds t)

theorem kept_instant {t : Time} : JsonCopy.Kept ({ time := t } : Record.Instant) ↔ Dated t :=
  decide_eq_true_iff

theorem ResourceReference.kept (r : ResourceReference) : JsonCopy.Kept r.record := by
  rw [JsonCopy.kept_fields]
  simp [ResourceReference.record]

theorem ArtifactRef.kept (r : ArtifactRef) : JsonCopy.Kept r.record := by
  rw [JsonCopy.kept_fields]
  simp [ArtifactRef.record]

theorem Verdict.kept (v : Verdict) : JsonCopy.Kept v.record := by
  rw [JsonCopy.kept_fields]
  simp [Verdict.record]

theorem ProviderError.kept (e : ProviderError) : JsonCopy.Kept e.record := by
  rw [JsonCopy.kept_fields]
  simp [ProviderError.record]

theorem ProviderRef.kept (p : ProviderRef) : JsonCopy.Kept p.record := by
  rw [JsonCopy.kept_fields]
  simp [ProviderRef.record]

theorem TypedIdentifier.kept (i : TypedIdentifier) : JsonCopy.Kept i.record := by
  rw [JsonCopy.kept_fields]
  simp [TypedIdentifier.record]

theorem Assessment.kept (a : Assessment) : JsonCopy.Kept a.record := by
  rw [JsonCopy.kept_fields]
  simp [Assessment.record]

theorem FindingSource.kept (s : FindingSource) : JsonCopy.Kept s.record := by
  rw [JsonCopy.kept_fields]
  simp [FindingSource.record]

theorem SeverityConsensus.kept (c : SeverityConsensus) : JsonCopy.Kept c.record := by
  have hcount : JsonCopy.Kept c.sourceCount := trivial
  rw [JsonCopy.kept_fields]
  simp [SeverityConsensus.record, hcount]

theorem PolicyRef.kept (p : PolicyRef) : JsonCopy.Kept p.record := by
  rw [JsonCopy.kept_fields]
  simp [PolicyRef.record]

theorem Execution.kept_iff {e : Execution} :
    JsonCopy.Kept e.record ↔ Dated e.startedAt ∧ Dated e.finishedAt := by
  rw [JsonCopy.kept_fields]
  simp [Execution.record, kept_instant, ProviderError.kept]

theorem CacheInfo.kept_iff {c : CacheInfo} :
    JsonCopy.Kept c.record ↔ ∀ t ∈ c.validUntil, Dated t := by
  have hhit : JsonCopy.Kept c.hit := trivial
  rw [JsonCopy.kept_fields]
  simp [CacheInfo.record, kept_instant, hhit]

theorem SeverityObservation.kept_iff {s : SeverityObservation} :
    JsonCopy.Kept s.record ↔ s.score.all Float64.isFinite = true := by
  rw [JsonCopy.kept_fields]
  simp [SeverityObservation.record, Option.all_eq_true, JsonCopy.Kept]

theorem SeverityRef.kept_iff {r : SeverityRef} :
    JsonCopy.Kept r.record ↔ r.score.all Float64.isFinite = true := by
  rw [JsonCopy.kept_fields]
  simp [SeverityRef.record, Option.all_eq_true, JsonCopy.Kept]

theorem finiteScores_iff {l : List SeverityObservation} :
    finiteScores (l.map (·.score)) = true ↔ ∀ s ∈ l, JsonCopy.Kept s.record := by
  simp only [finiteScores, List.all_map, List.all_eq_true, Function.comp_apply,
    SeverityObservation.kept_iff]

theorem Finding.kept_iff {f : Finding} :
    JsonCopy.Kept f.record ↔ ∀ s ∈ f.severity, JsonCopy.Kept s.record := by
  rw [JsonCopy.kept_fields]
  simp [Finding.record, TypedIdentifier.kept, ArtifactRef.kept, Assessment.kept]

theorem MergedFinding.kept_iff {m : MergedFinding} :
    JsonCopy.Kept m.record ↔ ∀ s ∈ m.severity, JsonCopy.Kept s.record := by
  rw [JsonCopy.kept_fields]
  simp [MergedFinding.record, TypedIdentifier.kept, Assessment.kept, FindingSource.kept,
    SeverityConsensus.kept]

theorem DecisionReason.kept_iff {r : DecisionReason} :
    JsonCopy.Kept r.record ↔ ∀ ref ∈ r.severityRef, JsonCopy.Kept ref.record := by
  rw [JsonCopy.kept_fields]
  simp [DecisionReason.record]

/-- The instants of a record. -/
def Submission.instants (s : Submission) : List Time :=
  s.createdAt :: (s.completedAt.toList ++ s.resumeAt.toList)

def ProviderResult.instants (r : ProviderResult) : List Time :=
  r.execution.startedAt :: r.execution.finishedAt :: (r.cache.bind (·.validUntil)).toList

def MergedResult.instants (m : MergedResult) : List Time := [m.mergedAt]

def PolicyDecision.instants (d : PolicyDecision) : List Time :=
  d.evaluatedAt :: d.resumeAt.toList

theorem Submission.kept_iff {s : Submission} :
    JsonCopy.Kept s.record ↔ s.artifact.content = [] ∧ ∀ t ∈ s.instants, Dated t := by
  have hartifact : JsonCopy.Kept s.artifact.record ↔ s.artifact.content = [] := by
    have hcontent : JsonCopy.Kept ({ val := s.artifact.content } : Unserialized UInt8) ↔
        s.artifact.content = [] := Iff.rfl
    rw [JsonCopy.kept_fields]
    simp [Artifact.record, ResourceReference.kept, hcontent]
  rw [JsonCopy.kept_fields, ← hartifact]
  simp [Submission.record, Submission.instants, kept_instant, or_imp, forall_and]

theorem ProviderResult.kept_iff {r : ProviderResult} :
    JsonCopy.Kept r.record ↔ r.encodable = true ∧ ∀ t ∈ r.instants, Dated t := by
  have hfindings : r.encodable = true ↔ ∀ f ∈ r.findings, JsonCopy.Kept f.record := by
    rw [ProviderResult.encodable, finiteScores_iff, List.forall_mem_flatMap]
    simp only [Finding.kept_iff]
  have hinstants : (∀ t ∈ r.instants, Dated t) ↔
      JsonCopy.Kept r.execution.record ∧ ∀ c ∈ r.cache, JsonCopy.Kept c.record := by
    cases hcache : r.cache <;>
      simp [ProviderResult.instants, hcache, Execution.kept_iff, CacheInfo.kept_iff, and_assoc]
  rw [JsonCopy.kept_fields, hfindings, hinstants]
  simp [ProviderResult.record, Verdict.kept, ProviderRef.kept, and_comm, and_left_comm]

theorem MergedResult.kept_iff {m : MergedResult} :
    JsonCopy.Kept m.record ↔ m.encodable = true ∧ ∀ t ∈ m.instants, Dated t := by
  have hfindings : m.encodable = true ↔ ∀ f ∈ m.findings, JsonCopy.Kept f.record := by
    rw [MergedResult.encodable, finiteScores_iff, List.forall_mem_flatMap]
    simp only [MergedFinding.kept_iff]
  rw [JsonCopy.kept_fields, hfindings]
  simp [MergedResult.record, MergedResult.instants, kept_instant]

theorem PolicyDecision.kept_iff {d : PolicyDecision} :
    JsonCopy.Kept d.record ↔ d.encodable = true ∧ ∀ t ∈ d.instants, Dated t := by
  have hreasons : d.encodable = true ↔ ∀ reason ∈ d.reasons, JsonCopy.Kept reason.record := by
    simp only [PolicyDecision.encodable, finiteScores, List.all_map, List.all_eq_true,
      Function.comp_apply, ← SeverityRef.kept_iff, List.forall_mem_filterMap,
      DecisionReason.kept_iff, Option.mem_def]
  rw [JsonCopy.kept_fields, hreasons]
  simp [PolicyDecision.record, PolicyDecision.instants, PolicyRef.kept, kept_instant,
    and_left_comm]

/-! ## Their copies -/

theorem rigid_score (score : Option Float64) : JsonCopy.Rigid score := by
  cases score with
  | none => exact JsonCopy.rigid_none
  | some x => exact JsonCopy.rigid_some (JsonCopy.rigid_ofEncodable x)

theorem rigid_instant (t : Time) : JsonCopy.Rigid ({ time := t } : Record.Instant) :=
  JsonCopy.rigid_ofEncodable _

theorem SeverityObservation.rigid (s : SeverityObservation) : JsonCopy.Rigid s.record := by
  have hderivation : ∀ method : String,
      JsonCopy.Rigid ({ method := .same method } : Record.DerivationInfo) :=
    fun method => JsonCopy.rigid_fields (JsonCopy.rigid_same method)
  refine JsonCopy.rigid_fields ?_
  repeat' apply JsonCopy.rigid_prod
  all_goals simp [SeverityObservation.record, rigid_score, hderivation]

theorem Finding.rigid (f : Finding) : JsonCopy.Rigid f.record := by
  refine JsonCopy.rigid_fields ?_
  repeat' apply JsonCopy.rigid_prod
  all_goals simp [Finding.record, JsonCopy.Rigid.of_kept, TypedIdentifier.kept,
    ArtifactRef.kept, Assessment.kept, SeverityObservation.rigid]

theorem Execution.rigid (e : Execution) : JsonCopy.Rigid e.record := by
  refine JsonCopy.rigid_fields ?_
  repeat' apply JsonCopy.rigid_prod
  all_goals simp [Execution.record, JsonCopy.Rigid.of_kept, ProviderError.kept, rigid_instant]

theorem CacheInfo.rigid (c : CacheInfo) : JsonCopy.Rigid c.record := by
  have hhit : JsonCopy.Rigid c.hit := .of_kept trivial
  refine JsonCopy.rigid_fields ?_
  repeat' apply JsonCopy.rigid_prod
  all_goals simp [CacheInfo.record, hhit, rigid_instant]

theorem ProviderResult.rigid (r : ProviderResult) : JsonCopy.Rigid r.record := by
  refine JsonCopy.rigid_fields ?_
  repeat' apply JsonCopy.rigid_prod
  all_goals simp [ProviderResult.record, JsonCopy.Rigid.of_kept, ProviderRef.kept, Verdict.kept,
    Execution.rigid, Finding.rigid, CacheInfo.rigid]

theorem MergedFinding.rigid (m : MergedFinding) : JsonCopy.Rigid m.record := by
  refine JsonCopy.rigid_fields ?_
  repeat' apply JsonCopy.rigid_prod
  all_goals simp [MergedFinding.record, JsonCopy.Rigid.of_kept, TypedIdentifier.kept,
    FindingSource.kept, Assessment.kept, SeverityConsensus.kept, SeverityObservation.rigid]

theorem MergedResult.rigid (m : MergedResult) : JsonCopy.Rigid m.record := by
  refine JsonCopy.rigid_fields ?_
  repeat' apply JsonCopy.rigid_prod
  all_goals simp [MergedResult.record, MergedFinding.rigid, rigid_instant]

theorem DecisionReason.rigid (r : DecisionReason) : JsonCopy.Rigid r.record := by
  have href : ∀ ref : SeverityRef, JsonCopy.Rigid ref.record := by
    intro ref
    refine JsonCopy.rigid_fields ?_
    repeat' apply JsonCopy.rigid_prod
    all_goals simp [SeverityRef.record, rigid_score]
  refine JsonCopy.rigid_fields ?_
  repeat' apply JsonCopy.rigid_prod
  all_goals simp [DecisionReason.record, href]

theorem PolicyDecision.rigid (d : PolicyDecision) : JsonCopy.Rigid d.record := by
  refine JsonCopy.rigid_fields ?_
  repeat' apply JsonCopy.rigid_prod
  all_goals simp [PolicyDecision.record, JsonCopy.Rigid.of_kept, PolicyRef.kept,
    DecisionReason.rigid, rigid_instant]

/-- A copy that JSON keeps or refuses is taken over from `Api.Clone`. -/
theorem clone_record {α β : Type} [JsonCopy β] {record : α → β} {encodable : α → Bool}
    (zero : α) {v : α} (hkept : JsonCopy.Kept (record v) ↔ encodable v = true)
    (hrigid : JsonCopy.Rigid (record v)) :
    (JsonCopy.copy (record v)).getD (record zero) = record (cloneOr encodable zero v) := by
  unfold cloneOr
  by_cases henc : encodable v = true
  · rw [if_pos henc, JsonCopy.copy_of_kept (hkept.mpr henc), Option.getD_some]
  · rw [if_neg henc, hrigid.copy_eq_none (mt hkept.mp henc), Option.getD_none]

theorem ProviderResult.cloneJSON_record {r : ProviderResult} (h : ∀ t ∈ r.instants, Dated t) :
    cloneJSON r.record = (cloneJSON r).record :=
  clone_record ProviderResult.zero (by rw [ProviderResult.kept_iff, and_iff_left h])
    (ProviderResult.rigid r)

theorem MergedResult.cloneJSON_record {m : MergedResult} (h : ∀ t ∈ m.instants, Dated t) :
    cloneJSON m.record = (cloneJSON m).record :=
  clone_record MergedResult.zero (by rw [MergedResult.kept_iff, and_iff_left h])
    (MergedResult.rigid m)

theorem PolicyDecision.cloneJSON_record {d : PolicyDecision} (h : ∀ t ∈ d.instants, Dated t) :
    cloneJSON d.record = (cloneJSON d).record :=
  clone_record PolicyDecision.zero (by rw [PolicyDecision.kept_iff, and_iff_left h])
    (PolicyDecision.rigid d)

/-- The content of an artifact is not copied. -/
theorem Submission.cloneJSON_record {s : Submission} (h : ∀ t ∈ s.instants, Dated t) :
    cloneJSON s.record = (cloneJSON s).record := by
  have hcopy : JsonCopy.copy s.record = JsonCopy.copy (cloneJSON s).record := rfl
  have hkept : JsonCopy.Kept (cloneJSON s).record := Submission.kept_iff.mpr ⟨rfl, h⟩
  exact congrArg (Option.getD · {}) (hcopy.trans (JsonCopy.copy_of_kept hkept))

end Scintx.Api
