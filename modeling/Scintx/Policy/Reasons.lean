/-
Scintx.Policy.Reasons — does a decision say why?
(`extensions/policies/yaml/evaluate.go`)

The evaluators escalate and record reasons in separate statements. A
`Ground` is a contribution TOGETHER with the reason recorded for it, and
the grounds of an evaluation account for all of its reasons
(`evaluateDoc_grounds`, `evaluateMergedDoc_grounds`). They do not account
for all of its contributions: a verdict that the document maps to a
decision escalates and leaves no reason.

So a decision is explained, by a reason whose own contribution is as
strict as the decision, exactly if no mapped verdict is stricter than
every ground (`decision_explained_iff`).
-/
import Scintx.Policy.Attribution

namespace Scintx.Policy

open Scintx.Lib Scintx.Api Scintx.Orchestrator

/-! ## Grounds -/

/-- A contribution and the reason recorded for it. -/
abbrev Ground := PolicyDecisionValue × DecisionReason

/-- Whatever the grounds are of, they pair all the contributions with all
the reasons. -/
structure Accounts (ds : List PolicyDecisionValue) (rs : List DecisionReason)
    (grounds : List Ground) : Prop where
  decisions : grounds.map Prod.fst = ds
  reasons : grounds.map Prod.snd = rs

theorem accounts_zip {ds : List PolicyDecisionValue} {rs : List DecisionReason}
    (h : ds.length = rs.length) : Accounts ds rs (ds.zip rs) :=
  ⟨List.map_fst_zip (by omega), List.map_snd_zip (by omega)⟩

theorem Accounts.append {ds ds' : List PolicyDecisionValue} {rs rs' : List DecisionReason}
    {gs gs' : List Ground} (h : Accounts ds rs gs) (h' : Accounts ds' rs' gs') :
    Accounts (ds ++ ds') (rs ++ rs') (gs ++ gs') :=
  ⟨by rw [List.map_append, h.decisions, h'.decisions],
    by rw [List.map_append, h.reasons, h'.reasons]⟩

theorem Accounts.flatMap {α : Type} {ds : α → List PolicyDecisionValue}
    {rs : α → List DecisionReason} {gs : α → List Ground}
    (h : ∀ x, Accounts (ds x) (rs x) (gs x)) (l : List α) :
    Accounts (l.flatMap ds) (l.flatMap rs) (l.flatMap gs) := by
  induction l with
  | nil => exact ⟨rfl, rfl⟩
  | cons x l ih => exact (h x).append ih

def executionGrounds (spec : Spec) (r : ProviderResult) : List Ground :=
  (executionContribution spec r).zip (executionReasons spec r)

theorem executionGrounds_accounts (spec : Spec) (r : ProviderResult) :
    Accounts (executionContribution spec r) (executionReasons spec r)
      (executionGrounds spec r) := by
  apply accounts_zip
  unfold executionContribution executionReasons executionPhase Tally.unfinished
    Tally.missingVerdict
  split
  · split <;> rfl
  · split <;> rfl

/-- The decision is allow, or a reason is recorded whose own contribution
is as strict as the decision. -/
def Explained (grounds : List Ground) (dec : PolicyDecision) : Prop :=
  dec.decision ≠ .allow → dec.reasons ≠ [] ∧
    ∃ g ∈ grounds, g.2 ∈ dec.reasons ∧ rank g.1 = rank dec.decision

/-- Every verdict's contribution is matched by a ground at least as
strict. -/
def VerdictsGrounded (spec : Spec) (results : List ProviderResult) (grounds : List Ground) :
    Prop :=
  ∀ r ∈ results, ∀ x ∈ verdictContribution spec r,
    rank x = 0 ∨ ∃ g ∈ grounds, rank x ≤ rank g.1

section Given

variable [GoStd]

/-! ## The grounds of `evaluateDoc` -/

/-- The reasons a finding of a result gives. -/
def ruleReasons (spec : Spec) (resultID : String) (f : Finding) : List DecisionReason :=
  (matchFinding spec.findings resultID f).toList.map (·.reason)

def ruleGrounds (spec : Spec) (resultID : String) (f : Finding) : List Ground :=
  (ruleContribution spec f).zip (ruleReasons spec resultID f)

def rawGrounds (spec : Spec) (r : ProviderResult) : List Ground :=
  executionGrounds spec r ++ (rawFindings r).flatMap (ruleGrounds spec r.id)

theorem ruleGrounds_accounts (spec : Spec) (resultID : String) (f : Finding) :
    Accounts (ruleContribution spec f) (ruleReasons spec resultID f)
      (ruleGrounds spec resultID f) := by
  apply accounts_zip
  unfold ruleContribution ruleReasons matchFinding
  cases spec.findings.find? fun rule => whenMatches rule.when f <;> rfl

theorem rawGrounds_accounts (spec : Spec) (r : ProviderResult) :
    Accounts (executionContribution spec r ++ (rawFindings r).flatMap (ruleContribution spec))
      (executionReasons spec r ++ (rawFindings r).flatMap (ruleReasons spec r.id))
      (rawGrounds spec r) :=
  (executionGrounds_accounts spec r).append (.flatMap (ruleGrounds_accounts spec r.id) _)

theorem rawFinding_reasons (spec : Spec) (r : ProviderResult) (t : Tally) (f : Finding) :
    (rawFinding spec r t f).reasons = t.reasons ++ ruleReasons spec r.id f := by
  unfold rawFinding ruleReasons
  cases matchFinding spec.findings r.id f with
  | none => exact (List.append_nil _).symm
  | some m => rfl

theorem rawResult_reasons (spec : Spec) (t : Tally) (r : ProviderResult) :
    (rawResult spec t r).reasons = t.reasons ++
      (executionReasons spec r ++ (rawFindings r).flatMap (ruleReasons spec r.id)) := by
  rw [rawResult_eq, foldl_reasons (rawFinding_reasons spec r), verdictPhase_reasons,
    executionPhase_reasons, List.append_assoc]

/-- Every reason of `evaluateDoc` is that of a ground. -/
theorem evaluateDoc_grounds (doc : Document) (sub : Submission) (results : List ProviderResult)
    (env : EvalEnv) :
    (evaluateDoc doc sub results env).reasons =
      (results.flatMap (rawGrounds doc.spec)).map Prod.snd := by
  unfold evaluateDoc
  rw [Tally.record_reasons, foldl_reasons (rawResult_reasons doc.spec),
    (Accounts.flatMap (rawGrounds_accounts doc.spec) results).reasons]
  rfl

/-- A contribution to `evaluateDoc` is that of a ground or of a verdict. -/
theorem mem_rawContribution {spec : Spec} {results : List ProviderResult}
    {x : PolicyDecisionValue} :
    x ∈ results.flatMap (rawContribution spec) ↔
      x ∈ (results.flatMap (rawGrounds spec)).map Prod.fst ∨
        ∃ r ∈ results, x ∈ verdictContribution spec r := by
  rw [(Accounts.flatMap (rawGrounds_accounts spec) results).decisions]
  simp only [rawContribution, List.mem_flatMap (l := results), List.mem_append]
  constructor
  · rintro ⟨r, hr, (hx | hx) | hx⟩
    · exact .inl ⟨r, hr, .inl hx⟩
    · exact .inr ⟨r, hr, hx⟩
    · exact .inl ⟨r, hr, .inr hx⟩
  · rintro (⟨r, hr, hx | hx⟩ | ⟨r, hr, hx⟩)
    · exact ⟨r, hr, .inl (.inl hx)⟩
    · exact ⟨r, hr, .inr hx⟩
    · exact ⟨r, hr, .inl (.inr hx)⟩

/-! ## The grounds of `evaluateMergedDoc` -/

def findingGrounds (spec : Spec) (mf : MergedFinding) : List Ground :=
  (findingContribution spec mf).zip (findingReasons spec mf)

def mergedGrounds (spec : Spec) (results : List ProviderResult) (merged : MergedResult) :
    List Ground :=
  results.flatMap (executionGrounds spec) ++ merged.findings.flatMap (findingGrounds spec)

theorem findingGrounds_accounts (spec : Spec) (mf : MergedFinding) :
    Accounts (findingContribution spec mf) (findingReasons spec mf) (findingGrounds spec mf) := by
  apply accounts_zip
  unfold findingContribution conflictContribution ruleContribution findingReasons findingPhase
    matchFinding
  cases spec.findings.find? fun rule => whenMatches rule.when (synthetic mf) <;>
    by_cases hc : mf.consensus.conflicts = [] <;> simp [hc, Tally.because, Tally.raise, Tally.start]

theorem mergedGrounds_accounts (spec : Spec) (results : List ProviderResult)
    (merged : MergedResult) :
    Accounts (results.flatMap (executionContribution spec) ++
        merged.findings.flatMap (findingContribution spec))
      (results.flatMap (executionReasons spec) ++ merged.findings.flatMap (findingReasons spec))
      (mergedGrounds spec results merged) :=
  (Accounts.flatMap (executionGrounds_accounts spec) _).append
    (.flatMap (findingGrounds_accounts spec) _)

/-- Every reason of `evaluateMergedDoc` is that of a ground. -/
theorem evaluateMergedDoc_grounds (doc : Document) (sub : Submission)
    (results : List ProviderResult) (merged : MergedResult) (env : EvalEnv) :
    (evaluateMergedDoc doc sub results merged env).reasons =
      (mergedGrounds doc.spec results merged).map Prod.snd := by
  rw [evaluateMergedDoc_reasons, (mergedGrounds_accounts doc.spec results merged).reasons]

/-- A contribution to `evaluateMergedDoc` is that of a ground or of a
verdict. -/
theorem mem_mergedContributions {spec : Spec} {results : List ProviderResult}
    {merged : MergedResult} {x : PolicyDecisionValue} :
    x ∈ mergedContributions spec results merged ↔
      x ∈ (mergedGrounds spec results merged).map Prod.fst ∨
        ∃ r ∈ results, x ∈ verdictContribution spec r := by
  rw [(mergedGrounds_accounts spec results merged).decisions, mergedContributions]
  simp only [List.mem_append, List.mem_flatMap (f := verdictContribution spec)]
  exact or_right_comm

/-! ## Decisions that say why -/

omit [GoStd] in
theorem explained_iff {dec : PolicyDecision} {ds : List PolicyDecisionValue}
    {grounds : List Ground} {spec : Spec} {results : List ProviderResult}
    (hdecision : dec.decision = ds.foldl escalate .allow)
    (hreasons : dec.reasons = grounds.map Prod.snd) (hvalid : ∀ x ∈ ds, ValidValue x)
    (hmem : ∀ x, x ∈ ds ↔
      x ∈ grounds.map Prod.fst ∨ ∃ r ∈ results, x ∈ verdictContribution spec r) :
    Explained grounds dec ↔ VerdictsGrounded spec results grounds := by
  have hbound {x : PolicyDecisionValue} (hx : x ∈ ds) : rank x ≤ rank dec.decision := by
    rw [hdecision]
    exact le_rank_foldl_escalate.mpr (.inr ⟨x, hx, le_refl _⟩)
  constructor
  · intro hexp r hr x hx
    by_cases hzero : rank x = 0
    · exact .inl hzero
    · have hle := hbound ((hmem x).mpr (.inr ⟨r, hr, hx⟩))
      obtain ⟨-, g, hg, -, hrank⟩ := hexp fun hallow => by
        rw [hallow] at hle
        exact hzero (Nat.le_zero.mp hle)
      exact .inr ⟨g, hg, by omega⟩
  · intro hgrounded hne
    -- some contribution is the decision; if it is a verdict's, a ground is as strict
    have hattained : ∃ g ∈ grounds, rank g.1 = rank dec.decision := by
      have hself := foldl_escalate_mem ds .allow
      rw [← hdecision] at hself
      have hin := hself.resolve_left hne
      rcases (hmem _).mp hin with hground | ⟨r, hr, hx⟩
      · obtain ⟨g, hg, heq⟩ := List.mem_map.mp hground
        exact ⟨g, hg, by rw [heq]⟩
      · rcases hgrounded r hr _ hx with hzero | ⟨g, hg, hle⟩
        · have hallow : ValidValue .allow := by simp [ValidValue]
          exact absurd (rank_injective_of_valid (hvalid _ hin) hallow hzero) hne
        · have := hbound ((hmem g.1).mpr (.inl (List.mem_map_of_mem hg)))
          exact ⟨g, hg, by omega⟩
    obtain ⟨g, hg, hrank⟩ := hattained
    have hreason : g.2 ∈ dec.reasons := hreasons ▸ List.mem_map_of_mem hg
    exact ⟨List.ne_nil_of_mem hreason, g, hg, hreason, hrank⟩

/-- **When a decision says why.** The reasons of a decision are those of
its grounds, and one of them is as strict as the decision exactly if no
mapped verdict is stricter than all of them: in either evaluator. -/
theorem decision_explained_iff (d : ValidDocument) (sub : Submission)
    (results : List ProviderResult) (merged : MergedResult) (env : EvalEnv) :
    let raw := results.flatMap (rawGrounds d.doc.spec)
    let found := mergedGrounds d.doc.spec results merged
    (evaluateDoc d.doc sub results env).reasons = raw.map Prod.snd ∧
      (Explained raw (evaluateDoc d.doc sub results env) ↔
        VerdictsGrounded d.doc.spec results raw) ∧
      (evaluateMergedDoc d.doc sub results merged env).reasons = found.map Prod.snd ∧
      (Explained found (evaluateMergedDoc d.doc sub results merged env) ↔
        VerdictsGrounded d.doc.spec results found) := by
  refine ⟨evaluateDoc_grounds .., ?_, evaluateMergedDoc_grounds .., ?_⟩
  · exact explained_iff (evaluateDoc_decision ..) (evaluateDoc_grounds ..)
      (fun _ => rawContribution_valid d) (fun _ => mem_rawContribution)
  · exact explained_iff (evaluateMergedDoc_decision ..) (evaluateMergedDoc_grounds ..)
      (fun _ => mergedContributions_valid d) (fun _ => mem_mergedContributions)

end Given

/-- A document that denies whatever fails. -/
def denyFailed : Document where
  apiVersion := "scintx.policy/v1"
  kind := "Policy"
  metadata := { id := "default", version := "1" }
  spec := { verdicts := Finmap.singleton "fail" "deny" }

/-- A failed scan without findings is denied, and nothing says why. -/
theorem denied_without_reason :
    letI := GoStd.plain
    let results : List ProviderResult :=
      [{ id := "res_a", provider := { id := "a" }, execution := { status := .completed }
         verdict := some { value := .fail }, findings := [] }]
    let env : EvalEnv := { randHex := "d", now := 0, resumeFrom := 0 }
    let sub : Submission := { id := "sub", status := .running }
    let merged := newDefaultAggregator.aggregate "m" 0 results
    @Document.validate GoStd.plain denyFailed ["fail"] = .ok () ∧
    (evaluateDoc denyFailed sub results env).decision = .deny ∧
    (evaluateDoc denyFailed sub results env).reasons = [] ∧
    (evaluateMergedDoc denyFailed sub results merged env).decision = .deny ∧
    (evaluateMergedDoc denyFailed sub results merged env).reasons = [] := by
  refine ⟨by decide +kernel, by decide +kernel, by decide +kernel, by decide +kernel,
    by decide +kernel⟩

end Scintx.Policy
