/-
Scintx.Policy.RawTheorems — what `evaluateDoc` decides: the largest of
the contributions of the results.

The loop over the results has early `continue`s and an inner loop over
the findings. `rawResult_decision` says of one round what it escalates
to; by `foldl_decision` the whole loop escalates to everything its rounds
do. A maximum does not depend on the order of what it is taken over, and
that is all there is to order and to additional results.
-/
import Mathlib.Data.List.Forall2
import Scintx.Policy.EvaluateTheorems

namespace Scintx.Policy

open Scintx.Lib Scintx.Api

variable [GoStd]

/-- The findings `evaluateDoc` looks at: those of a completed result
whose verdict is `warn` or `fail`. -/
def rawFindings (r : ProviderResult) : List Finding :=
  match r.verdict with
  | none => []
  | some v =>
    if r.execution.status = .completed ∧ (v.value = .warn ∨ v.value = .fail) then r.findings
    else []

def rawContribution (spec : Spec) (r : ProviderResult) : List PolicyDecisionValue :=
  executionContribution spec r ++ verdictContribution spec r ++
    (rawFindings r).flatMap (ruleContribution spec)

theorem rawFinding_decision (spec : Spec) (r : ProviderResult) (t : Tally) (f : Finding) :
    (rawFinding spec r t f).decision = (ruleContribution spec f).foldl escalate t.decision := by
  unfold rawFinding ruleContribution matchFinding
  cases spec.findings.find? fun rule => whenMatches rule.when f <;>
    simp [Tally.raise, Tally.because]

/-- A result goes through the phases of `evaluateMergedDoc`, and then
through its own findings. -/
theorem rawResult_eq (spec : Spec) (t : Tally) (r : ProviderResult) :
    rawResult spec t r = (rawFindings r).foldl (rawFinding spec r)
      (verdictPhase spec (executionPhase spec t r) r) := by
  by_cases hc : r.execution.status = .completed
  · cases hv : r.verdict with
    | none => simp [rawResult, executionPhase, verdictPhase, rawFindings, hc, hv]
    | some v =>
      simp only [rawResult, executionPhase, verdictPhase, rawFindings, hc, hv, if_true, ne_eq,
        not_true_eq_false, if_false, true_and, reduceCtorEq]
      split <;> rfl
  · have hnone : rawFindings r = [] := by
      unfold rawFindings
      split <;> simp [hc]
    simp [rawResult, executionPhase, verdictPhase, hc, hnone]

theorem rawResult_decision (spec : Spec) (t : Tally) (r : ProviderResult) :
    (rawResult spec t r).decision = (rawContribution spec r).foldl escalate t.decision := by
  rw [rawResult_eq, foldl_decision (rawFinding_decision spec r), verdictPhase_decision,
    executionPhase_decision, rawContribution, List.foldl_append, List.foldl_append]

/-- `evaluateDoc` decides the largest of its contributions. -/
theorem evaluateDoc_decision (doc : Document) (sub : Submission) (results : List ProviderResult)
    (env : EvalEnv) :
    (evaluateDoc doc sub results env).decision =
      (results.flatMap (rawContribution doc.spec)).foldl escalate .allow := by
  unfold evaluateDoc
  rw [Tally.record_decision, foldl_decision (rawResult_decision doc.spec)]
  rfl

theorem rawContribution_valid (d : ValidDocument) {results : List ProviderResult}
    {x : PolicyDecisionValue} (hx : x ∈ results.flatMap (rawContribution d.doc.spec)) :
    ValidValue x := by
  simp only [rawContribution, List.mem_flatMap, List.mem_append] at hx
  obtain ⟨r, -, (hx | hx) | ⟨f, -, hx⟩⟩ := hx
  · exact executionContribution_valid d.sound hx
  · exact verdictContribution_valid d.sound hx
  · exact ruleContribution_valid d.sound hx

/-- The same result with its findings in another order. -/
def FindingsReordered (r r' : ProviderResult) : Prop :=
  ∃ fs, fs.Perm r.findings ∧ r' = { r with findings := fs }

/-- The same results in another order, and in each the same findings in
another order. -/
def Reordered (results results' : List ProviderResult) : Prop :=
  ∃ mid, mid.Perm results ∧ List.Forall₂ FindingsReordered mid results'

theorem FindingsReordered.contribution {r r' : ProviderResult} (h : FindingsReordered r r')
    (spec : Spec) {x : PolicyDecisionValue} :
    x ∈ rawContribution spec r' ↔ x ∈ rawContribution spec r := by
  obtain ⟨fs, hperm, rfl⟩ := h
  have hwalk : (rawFindings { r with findings := fs }).Perm (rawFindings r) := by
    unfold rawFindings
    split
    · simp_all
    · rename_i v hv
      simp only [show r.verdict = some v from hv]
      split
      · exact hperm
      · exact .refl _
  have hrules := (hwalk.flatMap_right (ruleContribution spec)).mem_iff (a := x)
  have hexec : executionContribution spec { r with findings := fs } =
      executionContribution spec r := rfl
  have hverdict : verdictContribution spec { r with findings := fs } =
      verdictContribution spec r := rfl
  simp only [rawContribution, List.mem_append, hexec, hverdict, hrules]

theorem Reordered.contributions {results results' : List ProviderResult}
    (h : Reordered results results') (spec : Spec) {x : PolicyDecisionValue} :
    x ∈ results'.flatMap (rawContribution spec) ↔ x ∈ results.flatMap (rawContribution spec) := by
  obtain ⟨mid, hperm, hall⟩ := h
  have hmid : x ∈ mid.flatMap (rawContribution spec) ↔
      x ∈ results.flatMap (rawContribution spec) :=
    (hperm.flatMap_right (rawContribution spec)).mem_iff
  rw [← hmid]
  clear hmid hperm
  induction hall with
  | nil => rfl
  | cons hr _ ih =>
    simp only [List.flatMap_cons, List.mem_append] at ih ⊢
    exact or_congr (hr.contribution spec) ih

/-- The decision is the largest of the contributions, in the order allow,
defer, review, deny, or allow if that is larger; it does not depend on
the order of the results or of the findings in them, and no further
result lowers it. -/
theorem evaluateDoc_maximum (d : ValidDocument) (sub : Submission)
    (results : List ProviderResult) (env : EvalEnv) :
    ((evaluateDoc d.doc sub results env).decision = .allow ∨
        (evaluateDoc d.doc sub results env).decision ∈
          results.flatMap (rawContribution d.doc.spec)) ∧
      (∀ x ∈ results.flatMap (rawContribution d.doc.spec),
        ValidValue x ∧ rank x ≤ rank (evaluateDoc d.doc sub results env).decision) ∧
      (∀ results' env', Reordered results results' →
        (evaluateDoc d.doc sub results' env').decision =
          (evaluateDoc d.doc sub results env).decision) ∧
      ∀ front back r env', results = front ++ back →
        rank (evaluateDoc d.doc sub results env).decision ≤
          rank (evaluateDoc d.doc sub (front ++ r :: back) env').decision := by
  have hallow : ValidValue .allow := by simp [ValidValue]
  have hvalid : ∀ l env, ValidValue (evaluateDoc d.doc sub l env).decision := by
    intro l env
    rw [evaluateDoc_decision]
    exact foldl_escalate_valid hallow fun x hx => rawContribution_valid d hx
  refine ⟨?_, ?_, ?_, ?_⟩
  · rw [evaluateDoc_decision]
    exact foldl_escalate_mem _ _
  · intro x hx
    refine ⟨rawContribution_valid d hx, ?_⟩
    rw [evaluateDoc_decision]
    exact le_rank_foldl_escalate.mpr (.inr ⟨x, hx, le_refl _⟩)
  · intro results' env' h
    refine rank_injective_of_valid (hvalid _ _) (hvalid _ _) ?_
    simp only [evaluateDoc_decision]
    exact le_antisymm
      ((Covered.of_subset fun x hx => (h.contributions d.doc.spec).mp hx).rank_foldl_le _)
      ((Covered.of_subset fun x hx => (h.contributions d.doc.spec).mpr hx).rank_foldl_le _)
  · rintro front back r env' rfl
    simp only [evaluateDoc_decision]
    refine (Covered.of_subset fun x hx => ?_).rank_foldl_le _
    simp only [List.flatMap_append, List.flatMap_cons, List.mem_append] at hx ⊢
    exact hx.imp_right .inr

end Scintx.Policy
