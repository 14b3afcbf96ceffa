/-
Scintx.Api.Types — the records of the gateway (`api/types.go`,
`api/merged.go`).

Field for field the source's, restricted to the fields some modelled
function reads or writes; what a provider is given, an artifact and a
capability, has all its fields. A Go string type with named constants is an
inductive type; where a provider or a client can send any other text,
that text is the constructor `other`, which cannot hold a named one, so
two values are equal exactly when their texts are.

Instants and durations are integers, in nanoseconds from Go's zero time.
-/
import Scintx.Lib.Float64
import Scintx.Lib.GoStd

namespace Scintx.Api

open Scintx.Lib

/-- Nanoseconds since the zero `time.Time`. -/
abbrev Time := Int

abbrev Duration := Int

/-- A value of a `map[string]any`: the texts and truth values the gateway
writes itself, and any other JSON value as its encoding. -/
inductive AnyValue where
  | str (s : String)
  | bool (b : Bool)
  | json (text : String)
  deriving DecidableEq

/-! ## Artifacts and submissions -/

structure ResourceReference where
  uri : String
  mediaType : String := ""
  digests : GoMap String := ∅
  format : String := ""
  formatVersion : String := ""
  expiresAt : String := ""
  extensions : GoMap AnyValue := ∅
  deriving DecidableEq

structure ArtifactRef where
  purl : Option String
  deriving DecidableEq

structure Artifact where
  purl : Option String := none
  digests : GoMap String := ∅
  contentRef : Option ResourceReference := none
  sbomRefs : List ResourceReference := []
  provenanceRefs : List ResourceReference := []
  extensions : GoMap AnyValue := ∅
  /-- Filled from the store before providers are called, never stored. -/
  content : List UInt8 := []
  deriving DecidableEq

inductive SubmissionStatus where
  | accepted
  | running
  | completed
  | failed
  | deferred
  deriving DecidableEq, Repr

def SubmissionStatus.text : SubmissionStatus → String
  | accepted => "accepted"
  | running => "running"
  | completed => "completed"
  | failed => "failed"
  | deferred => "deferred"

inductive CompletionReason where
  | decisionProduced
  | findingsOnly
  | deferred
  | failed
  | allProvidersIneligible
  | interrupted
  | capacityExceeded
  deriving DecidableEq, Repr

def CompletionReason.text : CompletionReason → String
  | decisionProduced => "decision_produced"
  | findingsOnly => "findings_only"
  | deferred => "deferred"
  | failed => "failed"
  | allProvidersIneligible => "all_providers_ineligible"
  | interrupted => "interrupted"
  | capacityExceeded => "capacity_exceeded"

structure Submission where
  id : String
  schemaVersion : String := "1.0.0"
  artifact : Artifact := {}
  requestedCapabilities : List String := []
  policyRef : Option String := none
  status : SubmissionStatus
  completionReason : Option CompletionReason := none
  createdAt : Time := 0
  completedAt : Option Time := none
  resultIDs : List String := []
  decisionID : Option String := none
  resumeAt : Option Time := none
  deriving DecidableEq

/-! ## Provider results -/

inductive ExecutionStatus where
  | completed
  | error
  | timeout
  | other (s : String) (h : s ∉ ["completed", "error", "timeout"])
  deriving DecidableEq

def ExecutionStatus.text : ExecutionStatus → String
  | completed => "completed"
  | error => "error"
  | timeout => "timeout"
  | other s _ => s

inductive VerdictValue where
  | pass
  | warn
  | fail
  | unknown
  | other (s : String) (h : s ∉ ["pass", "warn", "fail", "unknown"])
  deriving DecidableEq

def VerdictValue.text : VerdictValue → String
  | pass => "pass"
  | warn => "warn"
  | fail => "fail"
  | unknown => "unknown"
  | other s _ => s

structure Verdict where
  value : VerdictValue
  deriving DecidableEq

inductive ProviderErrorCode where
  | transport
  | provider5xx
  | provider4xx
  | normalization
  | semantic
  | unsupportedVersion
  | timeout
  | other (s : String) (h : s ∉ ["transport_error", "provider_5xx", "provider_4xx",
      "normalization_error", "semantic_error", "unsupported_version", "timeout"])
  deriving DecidableEq

structure ProviderError where
  code : ProviderErrorCode
  message : String
  deriving DecidableEq

structure Execution where
  status : ExecutionStatus
  startedAt : Time := 0
  finishedAt : Time := 0
  error : Option ProviderError := none
  deriving DecidableEq

structure CacheInfo where
  hit : Bool
  originalResultID : String
  validUntil : Option Time
  freshnessBasis : String
  deriving DecidableEq

structure ProviderRef where
  id : String
  version : String := ""
  deriving DecidableEq

structure TypedIdentifier where
  scheme : String
  value : String
  deriving DecidableEq

inductive AssessmentStatus where
  | affected
  | notAffected
  | fixed
  | underInvestigation
  | unknown
  | other (s : String)
      (h : s ∉ ["affected", "not_affected", "fixed", "under_investigation", "unknown"])
  deriving DecidableEq

def AssessmentStatus.text : AssessmentStatus → String
  | affected => "affected"
  | notAffected => "not_affected"
  | fixed => "fixed"
  | underInvestigation => "under_investigation"
  | unknown => "unknown"
  | other s _ => s

structure Assessment where
  status : AssessmentStatus
  justification : String := ""
  detail : String := ""
  deriving DecidableEq

structure SeverityObservation where
  scheme : String
  version : String := ""
  score : Option Float64 := none
  level : String := ""
  vector : String := ""
  source : String := ""
  /-- `Derivation.Method`. -/
  derivation : Option String := none
  deriving DecidableEq

structure Finding where
  id : String
  type : String
  title : String := ""
  identifiers : List TypedIdentifier := []
  subjects : List ArtifactRef := []
  severity : List SeverityObservation := []
  assessment : Option Assessment := none
  deriving DecidableEq

structure ProviderResult where
  id : String
  submissionID : String := ""
  provider : ProviderRef := { id := "" }
  execution : Execution
  verdict : Option Verdict := none
  findings : List Finding := []
  cache : Option CacheInfo := none
  deriving DecidableEq

/-! ## Merged findings -/

structure FindingSource where
  providerID : String
  resultID : String
  findingID : String
  deriving DecidableEq

structure SeverityConsensus where
  strategy : String
  sourceCount : Nat
  conflicts : List String
  deriving DecidableEq

structure MergedFinding where
  correlationKey : String
  type : String
  title : String
  identifiers : List TypedIdentifier
  sources : List FindingSource
  severity : List SeverityObservation
  assessment : Option Assessment
  consensus : SeverityConsensus
  deriving DecidableEq

structure MergedResult where
  id : String
  submissionID : String
  inputResultIDs : List String
  findings : List MergedFinding
  mergedAt : Time
  deriving DecidableEq

/-! ## Policy decisions -/

inductive PolicyDecisionValue where
  | allow
  | review
  | deny
  | defer
  | other (s : String) (h : s ∉ ["allow", "review", "deny", "defer"])
  deriving DecidableEq

namespace PolicyDecisionValue

def text : PolicyDecisionValue → String
  | allow => "allow"
  | review => "review"
  | deny => "deny"
  | defer => "defer"
  | other s _ => s

/-- The conversion `api.PolicyDecisionValue(s)`. -/
def ofString (s : String) : PolicyDecisionValue :=
  if ha : s = "allow" then allow
  else if hr : s = "review" then review
  else if hd : s = "deny" then deny
  else if hf : s = "defer" then defer
  else other s (by simp [ha, hr, hd, hf])

end PolicyDecisionValue

structure SeverityRef where
  scheme : String
  version : String
  score : Option Float64
  deriving DecidableEq

structure DecisionReason where
  code : String
  resultID : String
  findingID : String := ""
  severityRef : Option SeverityRef := none
  message : String
  deriving DecidableEq

structure PolicyRef where
  id : String
  version : String
  deriving DecidableEq

structure PolicyDecision where
  id : String
  submissionID : String
  decision : PolicyDecisionValue
  policy : PolicyRef
  evaluatedAt : Time
  inputResultIDs : List String
  reasons : List DecisionReason
  resumeAt : Option Time := none
  resumeOn : String := ""
  extensions : GoMap AnyValue := ∅
  deriving DecidableEq

/-- A final resolution a consumer shares back. -/
structure AdjudicateRequest where
  decision : PolicyDecisionValue
  actor : String := ""
  rationale : String := ""
  source : String := ""
  /-- As RFC 3339 text. -/
  expiresAt : Option String := none
  extensions : GoMap AnyValue := ∅

/-! ## Events and problems -/

structure CloudEvent where
  specVersion : String := "1.0"
  id : String
  source : String
  type : String
  subject : String
  time : Time
  dataContentType : String := "application/json"
  data : GoMap AnyValue
  sequence : Nat
  deriving DecidableEq

structure ProblemDetails where
  type : String
  title : String
  status : Nat
  detail : String
  deriving DecidableEq

/-- The details every answer with an error carries. -/
def problemDetails (status : Nat) (title detail : String) : ProblemDetails where
  type := "https://scintx.example/problems/" ++ title
  title := title
  status := status
  detail := detail

end Scintx.Api
