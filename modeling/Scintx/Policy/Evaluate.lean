/-
Scintx.Policy.Evaluate — the YAML policy engine
(`extensions/policies/yaml/evaluate.go`, `engine.go`).

Both evaluators run a decision and a list of reasons through loops over
the results, and in the merged case over the merged findings. `Tally` is
that pair. What the two share in the source (the handling of results
that did not complete, the decision record at the end) is one definition
here.

`evaluateDoc` and `evaluateMergedDoc` take the random id and the two
clock readings of a call as `EvalEnv`.
-/
import Scintx.Policy.Document

namespace Scintx.Policy

open Scintx.Lib Scintx.Api

structure EvalEnv where
  randHex : String
  /-- `EvaluatedAt`. -/
  now : Time
  /-- The later reading `ResumeAt` is counted from. -/
  resumeFrom : Time

/-! ## Escalation -/

/-- A decision missing from the source's map has the zero rank. -/
def rank : PolicyDecisionValue → Nat
  | .allow => 0
  | .defer => 1
  | .review => 2
  | .deny => 3
  | .other _ _ => 0

def escalate (current next : PolicyDecisionValue) : PolicyDecisionValue :=
  if rank current < rank next then next else current

def decisionOr (raw : String) (fallback : PolicyDecisionValue) : PolicyDecisionValue :=
  if raw = "" then fallback else .ofString raw

structure Tally where
  decision : PolicyDecisionValue
  reasons : List DecisionReason

def Tally.start : Tally := { decision := .allow, reasons := [] }

def Tally.raise (t : Tally) (next : PolicyDecisionValue) : Tally :=
  { t with decision := escalate t.decision next }

def Tally.because (t : Tally) (reason : DecisionReason) : Tally :=
  { t with reasons := t.reasons ++ [reason] }

/-! ## Results that did not complete, or completed without a verdict -/

def errorMessage (r : ProviderResult) : String :=
  match r.execution.error with
  | some e =>
    if e.message ≠ "" then "Provider execution error: " ++ e.message
    else "Provider execution error"
  | none => "Provider execution error"

def Tally.unfinished (spec : Spec) (t : Tally) (r : ProviderResult) : Tally :=
  if r.execution.status = .timeout then
    (t.raise (decisionOr spec.onTimeout .review)).because
      { code := "required_provider_timeout", resultID := r.id
        message := "Provider invocation timed out; required by policy" }
  else
    (t.raise (decisionOr spec.onError .review)).because
      { code := "provider_error", resultID := r.id, message := errorMessage r }

def Tally.missingVerdict (spec : Spec) (t : Tally) (r : ProviderResult) : Tally :=
  (t.raise (decisionOr spec.onMissingVerdict .review)).because
    { code := "missing_verdict", resultID := r.id
      message := "Provider completed but returned no verdict" }

/-- The baseline a verdict maps to, if the document maps it. -/
def Tally.verdict (spec : Spec) (t : Tally) (v : Verdict) : Tally :=
  match spec.verdicts.lookup v.value.text with
  | some mapped => t.raise (.ofString mapped)
  | none => t

/-! ## Finding rules -/

section Rules

variable [GoStd]

/-- One round of `topSeverity`: an unscored observation or one of another
scheme is passed over, and so is a score below the current top. -/
def topRound (scheme : String) (st : Float64 × Option SeverityObservation)
    (s : SeverityObservation) : Float64 × Option SeverityObservation :=
  if scheme ≠ "" ∧ !equalFold s.scheme scheme then st
  else
    match s.score with
    | none => st
    | some x => if Float64.le st.1 x then (x, some s) else st

/-- The highest score of a finding, from zero up, with its observation. -/
def topSeverity (f : Finding) (scheme : String) : Float64 × Option SeverityObservation :=
  f.severity.foldl (topRound scheme) (Float64.zero, none)

def whenMatches (w : FindingWhen) (f : Finding) : Bool :=
  if w.findingType ≠ "" ∧ f.type ≠ w.findingType then false
  else if w.assessment ≠ "" ∧ f.assessment.map (·.status.text) ≠ some w.assessment then false
  else
    let (score, sev) := topSeverity f w.severityScheme
    if w.severityScheme ≠ "" ∧ sev = none then false
    else
      match w.minScore with
      | none => true
      | some m =>
        match sev with
        | none => false
        | some s => !(s.score = none ∨ Float64.lt score m)

def renderMessage (tmpl findingID resultID : String) (score : Float64) : String :=
  let msg := replaceAll tmpl "\x7b\x7bfinding_id\x7d\x7d" findingID
  let msg := replaceAll msg "\x7b\x7bresult_id\x7d\x7d" resultID
  replaceAll msg "\x7b\x7bscore\x7d\x7d" score.fixed1

structure MatchedRule where
  decision : String
  reason : DecisionReason

def ruleReason (rule : FindingRule) (resultID : String) (f : Finding) : DecisionReason :=
  let (score, sev) := topSeverity f rule.when.severityScheme
  { code := rule.reasonCode, resultID := resultID, findingID := f.id
    severityRef := sev.bind fun s => s.score.map fun x =>
      { scheme := s.scheme, version := s.version, score := some x }
    message := renderMessage rule.message f.id resultID score }

/-- The first rule whose conditions the finding meets. -/
def matchFinding (rules : List FindingRule) (resultID : String) (f : Finding) :
    Option MatchedRule :=
  (rules.find? fun rule => whenMatches rule.when f).map fun rule =>
    { decision := rule.decision, reason := ruleReason rule resultID f }

/-! ## The decision record -/

def resumeDelay (spec : Spec) : Duration :=
  let hour : Duration := 3600000000000
  match spec.defer with
  | some d =>
    if d.resumeAfter = "" then hour
    else
      match GoStd.parseDuration d.resumeAfter with
      | .ok after => after
      | .error _ => hour
  | none => hour

def Tally.record (doc : Document) (sub : Submission) (env : EvalEnv) (inputs : List String)
    (t : Tally) : PolicyDecision :=
  let dec : PolicyDecision :=
    { id := "dec_" ++ env.randHex, submissionID := sub.id, decision := t.decision
      policy := { id := doc.metadata.id, version := doc.metadata.version }
      evaluatedAt := env.now, inputResultIDs := inputs, reasons := t.reasons }
  if t.decision = .defer then
    { dec with resumeAt := some (env.resumeFrom + resumeDelay doc.spec)
               resumeOn := "org.eclipse.scintx.submission.resume" }
  else dec

/-! ## Evaluation on the raw results -/

def rawFinding (spec : Spec) (r : ProviderResult) (t : Tally) (f : Finding) : Tally :=
  match matchFinding spec.findings r.id f with
  | none => t
  | some m => (t.raise (.ofString m.decision)).because m.reason

def rawResult (spec : Spec) (t : Tally) (r : ProviderResult) : Tally :=
  if r.execution.status ≠ .completed then t.unfinished spec r
  else
    match r.verdict with
    | none => t.missingVerdict spec r
    | some v =>
      let t := t.verdict spec v
      if v.value = .warn ∨ v.value = .fail then r.findings.foldl (rawFinding spec r) t else t

def evaluateDoc (doc : Document) (sub : Submission) (results : List ProviderResult)
    (env : EvalEnv) : PolicyDecision :=
  (results.foldl (rawResult doc.spec) .start).record doc sub env (results.map (·.id))

/-! ## Evaluation on merged findings -/

/-- Phase 1, over the raw results: errors, timeouts, missing verdicts. -/
def executionPhase (spec : Spec) (t : Tally) (r : ProviderResult) : Tally :=
  if r.execution.status = .completed then
    if r.verdict = none then t.missingVerdict spec r else t
  else t.unfinished spec r

/-- Phase 2, over the raw results: the verdicts of completed ones. -/
def verdictPhase (spec : Spec) (t : Tally) (r : ProviderResult) : Tally :=
  if r.execution.status ≠ .completed then t
  else
    match r.verdict with
    | none => t
    | some v => t.verdict spec v

/-- The result and finding id of the first source. -/
def primarySource (mf : MergedFinding) : String × String :=
  match mf.sources with
  | [] => ("none", "none")
  | s :: _ => (s.resultID, s.findingID)

def conflictMessage (findingID : String) (conflicts : List String) : String :=
  "Providers disagreed on assessment for finding " ++ findingID ++
    " (conflicting result_ids: " ++ join conflicts ", " ++ ")"

/-- The finding-shaped value the rules are matched against. -/
def synthetic (mf : MergedFinding) : Finding :=
  { id := (primarySource mf).2, type := mf.type, identifiers := mf.identifiers
    severity := mf.severity, assessment := mf.assessment }

/-- Phase 3, over the merged findings. -/
def findingPhase (spec : Spec) (t : Tally) (mf : MergedFinding) : Tally :=
  let (resultID, findingID) := primarySource mf
  let t :=
    if mf.consensus.conflicts ≠ [] then
      (t.raise (decisionOr spec.mergeConflicts .review)).because
        { code := "assessment_conflict", resultID := resultID, findingID := findingID
          message := conflictMessage findingID mf.consensus.conflicts }
    else t
  match matchFinding spec.findings resultID (synthetic mf) with
  | none => t
  | some m =>
    (t.raise (.ofString m.decision)).because
      { m.reason with findingID := findingID, resultID := resultID }

def evaluateMergedDoc (doc : Document) (sub : Submission) (results : List ProviderResult)
    (merged : MergedResult) (env : EvalEnv) : PolicyDecision :=
  let t := results.foldl (executionPhase doc.spec) .start
  let t := results.foldl (verdictPhase doc.spec) t
  let t := merged.findings.foldl (findingPhase doc.spec) t
  t.record doc sub env (results.map (·.id))

/-! ## The engine -/

structure Engine where
  policies : GoMap Document
  dir : String

/-- The document `policy_ref` selects. -/
def Engine.lookup (e : Engine) (sub : Submission) : Except String Document :=
  match sub.policyRef with
  | none => .error "yaml policy engine requires submission.policy_ref"
  | some ref =>
    let id := trimSpace ref
    if id = "" then .error "yaml policy engine requires submission.policy_ref"
    else
      match e.policies.lookup id with
      | some doc => .ok doc
      | none => .error ("unknown policy_ref " ++ quote id ++ " (loaded from " ++ e.dir ++ ")")

def Engine.evaluate (e : Engine) (sub : Submission) (results : List ProviderResult)
    (env : EvalEnv) : Except String PolicyDecision := do
  let doc ← e.lookup sub
  return evaluateDoc doc sub results env

def Engine.evaluateMerged (e : Engine) (sub : Submission) (results : List ProviderResult)
    (merged : MergedResult) (env : EvalEnv) : Except String PolicyDecision := do
  let doc ← e.lookup sub
  return evaluateMergedDoc doc sub results merged env

end Rules

end Scintx.Policy
