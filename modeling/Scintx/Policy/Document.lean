/-
Scintx.Policy.Document — YAML policy documents and their validation
(`extensions/policies/yaml/document.go`).

The document is the decoded YAML: decisions, verdict names and
assessments are texts here as they are there. `validate` is the source's
check, in its order and with its messages; the verdict map is checked in
the order `range` visits it, which only selects the reported entry.
`ValidDocument` is a document that passed, and `ValidDocument.sound` is
what evaluation needs of it: every decision it can apply is one of the
four.
-/
import Scintx.Api.Types

namespace Scintx.Policy

open Scintx.Lib Scintx.Api

structure Metadata where
  id : String
  version : String
  deriving DecidableEq

/-- The match criteria of a rule; an empty text or a missing score is not
a condition. -/
structure FindingWhen where
  assessment : String := ""
  severityScheme : String := ""
  minScore : Option Float64 := none
  findingType : String := ""
  deriving DecidableEq

structure FindingRule where
  when : FindingWhen := {}
  decision : String
  reasonCode : String
  message : String := ""
  deriving DecidableEq

structure DeferSpec where
  resumeAfter : String
  deriving DecidableEq

structure Spec where
  onTimeout : String := ""
  onError : String := ""
  onMissingVerdict : String := ""
  verdicts : GoMap String := ∅
  findings : List FindingRule := []
  defer : Option DeferSpec := none
  severityConsensus : String := ""
  mergeConflicts : String := ""
  deriving DecidableEq

structure Document where
  apiVersion : String
  kind : String
  metadata : Metadata
  spec : Spec
  deriving DecidableEq

def validDecision (s : String) : Bool :=
  PolicyDecisionValue.ofString s ∈
    [PolicyDecisionValue.allow, .review, .deny, .defer]

section Validate

variable [GoStd]

/-- The check of one optional top-level decision. -/
def checkDecisionField (name val : String) : Except String Unit :=
  if val = "" then .ok ()
  else if !validDecision val then .error ("spec." ++ name ++ ": invalid decision " ++ quote val)
  else .ok ()

def checkVerdict (verdicts : GoMap String) (k : String) : Except String Unit :=
  match verdicts.lookup k with
  | none => .ok ()
  | some v =>
    if !validDecision v then .error ("spec.verdicts." ++ k ++ ": invalid decision " ++ quote v)
    else .ok ()

def checkRule (i : Nat) (rule : FindingRule) : Except String Unit :=
  if !validDecision rule.decision then
    .error ("spec.findings[" ++ toString i ++ "].decision: invalid " ++ quote rule.decision)
  else if rule.reasonCode = "" then
    .error ("spec.findings[" ++ toString i ++ "].reason_code is required")
  else .ok ()

def checkRules : Nat → List FindingRule → Except String Unit
  | _, [] => .ok ()
  | i, rule :: rules => do
    checkRule i rule
    checkRules (i + 1) rules

def checkVerdicts (verdicts : GoMap String) : List String → Except String Unit
  | [] => .ok ()
  | k :: ks => do
    checkVerdict verdicts k
    checkVerdicts verdicts ks

def checkDefer : Option DeferSpec → Except String Unit
  | none => .ok ()
  | some d =>
    if d.resumeAfter = "" then .ok ()
    else
      match GoStd.parseDuration d.resumeAfter with
      | .error e => .error ("spec.defer.resume_after: " ++ e)
      | .ok _ => .ok ()

/-- Fail with `message` unless `ok`. -/
def require (ok : Bool) (message : String) : Except String Unit :=
  if ok then .ok () else .error message

/-- `Validate`, visiting the verdict map in `order`. -/
def Document.validate (d : Document) (order : List String) : Except String Unit := do
  require (d.apiVersion = "scintx.policy/v1")
    ("unsupported apiVersion " ++ quote d.apiVersion ++ " (want scintx.policy/v1)")
  require (d.kind = "Policy") ("unsupported kind " ++ quote d.kind ++ " (want Policy)")
  require (d.metadata.id ≠ "") "metadata.id is required"
  require (d.metadata.version ≠ "") "metadata.version is required"
  checkDecisionField "on_timeout" d.spec.onTimeout
  checkDecisionField "on_error" d.spec.onError
  checkDecisionField "on_missing_verdict" d.spec.onMissingVerdict
  checkVerdicts d.spec.verdicts order
  checkRules 0 d.spec.findings
  checkDefer d.spec.defer
  require (d.spec.severityConsensus ∈ ["", "max", "mean", "trust_weighted"])
    ("spec.severity_consensus: invalid value " ++ quote d.spec.severityConsensus ++
      " (want max, mean, or trust_weighted)")
  checkDecisionField "merge_conflicts" d.spec.mergeConflicts

/-- A document `Validate` accepts. -/
structure ValidDocument where
  doc : Document
  order : List String
  visits : doc.spec.verdicts.Enumerates order
  valid : doc.validate order = .ok ()

end Validate

/-! ## The decisions of a valid document -/

/-- The four decisions a policy can take. -/
def ValidValue (d : PolicyDecisionValue) : Prop :=
  d ∈ [PolicyDecisionValue.allow, .review, .deny, .defer]

theorem validDecision_iff {s : String} :
    validDecision s = true ↔ ValidValue (PolicyDecisionValue.ofString s) := by
  simp [validDecision, ValidValue]

section Decisions

variable [GoStd]

theorem validDecision_of_checkDecisionField {name val : String}
    (h : checkDecisionField name val = .ok ()) (hval : val ≠ "") : validDecision val = true := by
  unfold checkDecisionField at h
  rw [if_neg hval] at h
  cases hv : validDecision val
  · simp [hv] at h
  · rfl

theorem validDecision_of_checkRules {i : Nat} {rules : List FindingRule}
    (h : checkRules i rules = .ok ()) {rule : FindingRule} (hr : rule ∈ rules) :
    validDecision rule.decision = true := by
  induction rules generalizing i with
  | nil => simp at hr
  | cons r rules ih =>
    obtain ⟨_, hrule, hrest⟩ := bind_eq_ok h
    rcases List.mem_cons.mp hr with rfl | hr
    · unfold checkRule at hrule
      cases hv : validDecision rule.decision
      · simp [hv] at hrule
      · rfl
    · exact ih hrest hr

theorem validDecision_of_checkVerdicts {verdicts : GoMap String} {order : List String}
    (h : checkVerdicts verdicts order = .ok ()) {k v : String} (hk : k ∈ order)
    (hv : verdicts.lookup k = some v) : validDecision v = true := by
  induction order with
  | nil => simp at hk
  | cons k' order ih =>
    obtain ⟨_, hhead, hrest⟩ := bind_eq_ok h
    rcases List.mem_cons.mp hk with rfl | hk
    · unfold checkVerdict at hhead
      rw [hv] at hhead
      cases hvd : validDecision v
      · simp [hvd] at hhead
      · rfl
    · exact ih hrest hk

/-- Every decision the spec names is one of the four. -/
structure Spec.Sound (spec : Spec) : Prop where
  onTimeout : spec.onTimeout ≠ "" → validDecision spec.onTimeout = true
  onError : spec.onError ≠ "" → validDecision spec.onError = true
  onMissingVerdict : spec.onMissingVerdict ≠ "" → validDecision spec.onMissingVerdict = true
  verdicts : ∀ k v, spec.verdicts.lookup k = some v → validDecision v = true
  findings : ∀ rule ∈ spec.findings, validDecision rule.decision = true
  mergeConflicts : spec.mergeConflicts ≠ "" → validDecision spec.mergeConflicts = true

theorem ValidDocument.sound (d : ValidDocument) : d.doc.spec.Sound := by
  obtain ⟨doc, order, visits, valid⟩ := d
  unfold Document.validate at valid
  obtain ⟨_, -, h⟩ := bind_eq_ok valid
  obtain ⟨_, -, h⟩ := bind_eq_ok h
  obtain ⟨_, -, h⟩ := bind_eq_ok h
  obtain ⟨_, -, h⟩ := bind_eq_ok h
  obtain ⟨_, htimeout, h⟩ := bind_eq_ok h
  obtain ⟨_, herror, h⟩ := bind_eq_ok h
  obtain ⟨_, hmissing, h⟩ := bind_eq_ok h
  obtain ⟨_, hverdicts, h⟩ := bind_eq_ok h
  obtain ⟨_, hrules, h⟩ := bind_eq_ok h
  obtain ⟨_, -, h⟩ := bind_eq_ok h
  obtain ⟨_, -, hmerge⟩ := bind_eq_ok h
  exact
    { onTimeout := validDecision_of_checkDecisionField htimeout
      onError := validDecision_of_checkDecisionField herror
      onMissingVerdict := validDecision_of_checkDecisionField hmissing
      verdicts := fun k v hv => validDecision_of_checkVerdicts hverdicts
        (visits.mem_iff.mpr (Finmap.mem_of_lookup_eq_some hv)) hv
      findings := fun rule hr => validDecision_of_checkRules hrules hr
      mergeConflicts := validDecision_of_checkDecisionField hmerge }

end Decisions

end Scintx.Policy
