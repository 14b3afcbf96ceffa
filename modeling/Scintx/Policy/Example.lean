/-
Scintx.Policy.Example — the policy engine without documents
(`extensions/policies/example/policy.go`).

It has two thresholds and goes through the results once. `Tally` is its
decision with its reasons, as for the YAML engine, and each result has
its contributions (`contribution`): the decision is the largest of them.
`example_allow_iff` is when that is allow. A verdict `fail` alone
does not count, only findings that are assessed as affected do; and a
verdict that is none of the four is passed over.

Left out: the digest of the policy, which is never set.
-/
import Scintx.Policy.EvaluateTheorems

namespace Scintx.Policy

open Scintx.Lib Scintx.Api

structure ExampleEngine where
  policyID : String
  version : String
  denyAboveScore : Float64
  reviewAboveScore : Float64
  timeoutBehavior : String

namespace ExampleEngine

def timeoutDecision (e : ExampleEngine) : PolicyDecisionValue :=
  if e.timeoutBehavior = "deny" then .deny
  else if e.timeoutBehavior = "defer" then .defer
  else .review

def unfinished (e : ExampleEngine) (t : Tally) (r : ProviderResult) : Tally :=
  if r.execution.status = .timeout then
    (t.raise e.timeoutDecision).because
      { code := "required_provider_timeout", resultID := r.id
        message := "Provider invocation timed out; required by policy" }
  else
    (t.raise .review).because
      { code := "provider_error", resultID := r.id, message := errorMessage r }

/-- The finding is assessed as affected. -/
def isAffected (f : Finding) : Bool :=
  f.assessment.map (·.status) = some .affected

/-- One round of the search for the top score: only a larger one counts. -/
def worseRound (st : Float64 × Option SeverityObservation) (s : SeverityObservation) :
    Float64 × Option SeverityObservation :=
  match s.score with
  | none => st
  | some x => if Float64.lt st.1 x then (x, some s) else st

def topScore (f : Finding) : Float64 × Option SeverityObservation :=
  f.severity.foldl worseRound (Float64.zero, none)

def scoreRef (s : SeverityObservation) : SeverityRef where
  scheme := s.scheme
  version := s.version
  score := s.score

def warnFinding (r : ProviderResult) (t : Tally) (f : Finding) : Tally :=
  if isAffected f then
    t.because
      { code := "provider_warning", resultID := r.id, findingID := f.id
        message := "Provider warning on finding " ++ f.id }
  else t

/-- What an affected finding of a failed result escalates to. -/
def findingDecision (e : ExampleEngine) (f : Finding) : PolicyDecisionValue :=
  let (score, sev) := topScore f
  if Float64.le e.denyAboveScore score ∧ sev ≠ none then .deny else .review

def findingReason (e : ExampleEngine) (r : ProviderResult) (f : Finding) : DecisionReason :=
  let (score, sev) := topScore f
  if Float64.le e.denyAboveScore score ∧ sev ≠ none then
    { code := "critical_severity_vulnerability", resultID := r.id, findingID := f.id
      severityRef := sev.map scoreRef
      message := "CVSS " ++ score.fixed1 ++ " vulnerability with no fix available" }
  else if Float64.le e.reviewAboveScore score ∧ sev ≠ none then
    { code := "high_severity_vulnerability", resultID := r.id, findingID := f.id
      severityRef := sev.map scoreRef
      message := "CVSS " ++ score.fixed1 ++ " vulnerability requires review" }
  else
    { code := "provider_fail", resultID := r.id, findingID := f.id
      message := "Provider flagged finding " ++ f.id }

def failFinding (e : ExampleEngine) (r : ProviderResult) (t : Tally) (f : Finding) : Tally :=
  if !isAffected f then t
  else (t.raise (e.findingDecision f)).because (e.findingReason r f)

/-- The value of the verdict, if there is one. -/
def verdictOf (r : ProviderResult) : Option VerdictValue := r.verdict.map (·.value)

/-- One round of the loop over the results. -/
def result (e : ExampleEngine) (t : Tally) (r : ProviderResult) : Tally :=
  if r.execution.status ≠ .completed then e.unfinished t r
  else
    match verdictOf r with
    | none =>
      (t.raise .review).because
        { code := "missing_verdict", resultID := r.id
          message := "Provider completed but returned no verdict" }
    | some .pass => t
    | some .warn => r.findings.foldl (warnFinding r) (t.raise .review)
    | some .fail => r.findings.foldl (e.failFinding r) t
    | some .unknown =>
      (t.raise .defer).because
        { code := "provider_unknown", resultID := r.id
          message :=
            "Provider returned an indeterminate verdict; deferring for more evidence" }
    | some (.other _ _) => t

def evaluate (e : ExampleEngine) (sub : Submission) (results : List ProviderResult)
    (env : EvalEnv) : PolicyDecision :=
  let t := results.foldl e.result .start
  let dec : PolicyDecision :=
    { id := "dec_" ++ env.randHex, submissionID := sub.id, decision := t.decision
      policy := { id := e.policyID, version := e.version }
      evaluatedAt := env.now, inputResultIDs := results.map (·.id), reasons := t.reasons }
  if t.decision = .defer then
    { dec with resumeAt := some (env.resumeFrom + 3600000000000)
               resumeOn := "org.eclipse.scintx.submission.resume" }
  else dec

/-! ## Contributions -/

/-- The decisions that a result escalates to. -/
def contribution (e : ExampleEngine) (r : ProviderResult) : List PolicyDecisionValue :=
  if r.execution.status ≠ .completed then
    [if r.execution.status = .timeout then e.timeoutDecision else .review]
  else
    match verdictOf r with
    | none => [.review]
    | some .warn => [.review]
    | some .fail => (r.findings.filter isAffected).map e.findingDecision
    | some .unknown => [.defer]
    | some .pass | some (.other _ _) => []

theorem warnFindings_decision (r : ProviderResult) (fs : List Finding) (t : Tally) :
    (fs.foldl (warnFinding r) t).decision = t.decision := by
  induction fs generalizing t with
  | nil => rfl
  | cons f fs ih =>
    rw [List.foldl_cons, ih, warnFinding]
    split <;> rfl

theorem failFindings_decision (e : ExampleEngine) (r : ProviderResult) (fs : List Finding)
    (t : Tally) :
    (fs.foldl (e.failFinding r) t).decision =
      ((fs.filter isAffected).map e.findingDecision).foldl escalate t.decision := by
  induction fs generalizing t with
  | nil => rfl
  | cons f fs ih =>
    rw [List.foldl_cons, ih, failFinding]
    cases hf : isAffected f with
    | false =>
      rw [List.filter_cons_of_neg (by simp [hf])]
      rfl
    | true =>
      rw [List.filter_cons_of_pos hf]
      rfl

theorem result_decision (e : ExampleEngine) (t : Tally) (r : ProviderResult) :
    (e.result t r).decision = (e.contribution r).foldl escalate t.decision := by
  unfold result contribution
  split
  · unfold unfinished
    split <;> rfl
  · cases verdictOf r with
    | none => rfl
    | some v =>
      cases v with
      | pass => rfl
      | warn => exact warnFindings_decision r r.findings _
      | fail => exact failFindings_decision e r r.findings t
      | unknown => rfl
      | other s h => rfl

theorem evaluate_decision (e : ExampleEngine) (sub : Submission) (results : List ProviderResult)
    (env : EvalEnv) :
    (e.evaluate sub results env).decision =
      (results.flatMap e.contribution).foldl escalate .allow := by
  have hfold := foldl_decision e.result_decision results .start
  unfold evaluate
  simp only
  split <;> exact hfold

/-- Nothing that the engine escalates to is allow. -/
theorem rank_contribution {e : ExampleEngine} {r : ProviderResult} {d : PolicyDecisionValue}
    (h : d ∈ e.contribution r) : 1 ≤ rank d := by
  unfold contribution at h
  split at h
  · rw [List.mem_singleton.mp h]
    split
    · unfold timeoutDecision
      split
      · decide
      · split <;> decide
    · decide
  · split at h
    · rw [List.mem_singleton.mp h]
      decide
    · rw [List.mem_singleton.mp h]
      decide
    · obtain ⟨f, -, rfl⟩ := List.mem_map.mp h
      simp only [findingDecision]
      split <;> decide
    · rw [List.mem_singleton.mp h]
      decide
    · cases h
    · cases h

/-- The engine has no objection to the result. -/
def Harmless (r : ProviderResult) : Prop :=
  r.execution.status = .completed ∧
    (verdictOf r = some .pass ∨
      (verdictOf r = some .fail ∧ ∀ f ∈ r.findings, isAffected f = false) ∨
      ∃ s h, verdictOf r = some (.other s h))

theorem contribution_eq_nil_iff {e : ExampleEngine} {r : ProviderResult} :
    e.contribution r = [] ↔ Harmless r := by
  unfold contribution Harmless
  by_cases hst : r.execution.status = .completed
  · simp only [hst, ne_eq, not_true_eq_false, if_false, true_and]
    cases hv : verdictOf r with
    | none => simp
    | some v =>
      cases v with
      | pass => simp
      | warn => simp
      | fail => simp [List.filter_eq_nil_iff]
      | unknown => simp
      | other s h => exact iff_of_true rfl (.inr (.inr ⟨s, h, rfl⟩))
  · simp [hst]

theorem le_rank_evaluate (e : ExampleEngine) (sub : Submission) {results : List ProviderResult}
    (env : EvalEnv) {r : ProviderResult} (hr : r ∈ results) (h : ¬ Harmless r) :
    1 ≤ rank (e.evaluate sub results env).decision := by
  have hsome : e.contribution r ≠ [] := fun hnil => h (contribution_eq_nil_iff.mp hnil)
  obtain ⟨d, hd⟩ := List.exists_mem_of_ne_nil _ hsome
  rw [evaluate_decision]
  exact le_rank_foldl_escalate.mpr
    (.inr ⟨d, List.mem_flatMap.mpr ⟨r, hr, hd⟩, rank_contribution hd⟩)

/-- **When the example engine allows**: every result is completed, and it
passes, or fails without a finding that is assessed as affected, or has a
verdict that is none of the four. -/
theorem example_allow_iff (e : ExampleEngine) (sub : Submission) (results : List ProviderResult)
    (env : EvalEnv) :
    (e.evaluate sub results env).decision = .allow ↔ ∀ r ∈ results, Harmless r := by
  constructor
  · intro hallow r hr
    by_contra hharm
    have hrank := e.le_rank_evaluate sub env hr hharm
    rw [hallow] at hrank
    exact absurd hrank (by decide)
  · intro hall
    have hnil : results.flatMap e.contribution = [] :=
      List.flatMap_eq_nil_iff.mpr fun r hr => contribution_eq_nil_iff.mpr (hall r hr)
    rw [evaluate_decision, hnil]
    rfl

end ExampleEngine

end Scintx.Policy
