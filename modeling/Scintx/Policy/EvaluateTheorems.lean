/-
Scintx.Policy.EvaluateTheorems — what the evaluators decide, apart from
the reasons they give.

Escalation is a maximum: of the two decisions it keeps the one of the
larger rank, so a loop that escalates leaves the largest of what it was
given, and `le_rank_foldl_escalate` says of a whole loop which ranks it
reaches. Each loop of the source is then described by its CONTRIBUTIONS:
the decisions one result, or one merged finding, escalates to.

The rules look at a finding through its `Profile` only: its type, the
status of its assessment, and its top score per scheme.
-/
import Scintx.Policy.Evaluate

namespace Scintx.Policy

open Scintx.Lib Scintx.Api

/-! ## Escalation is a maximum -/

theorem rank_injective_of_valid {a b : PolicyDecisionValue} (ha : ValidValue a)
    (hb : ValidValue b) (h : rank a = rank b) : a = b := by
  simp only [ValidValue, List.mem_cons, List.not_mem_nil, or_false] at ha hb
  rcases ha with rfl | rfl | rfl | rfl <;> rcases hb with rfl | rfl | rfl | rfl <;>
    simp_all [rank]

theorem le_rank_escalate {a b : PolicyDecisionValue} {n : Nat} :
    n ≤ rank (escalate a b) ↔ n ≤ rank a ∨ n ≤ rank b := by
  unfold escalate
  split <;> omega

theorem escalate_valid {a b : PolicyDecisionValue} (ha : ValidValue a) (hb : ValidValue b) :
    ValidValue (escalate a b) := by
  unfold escalate
  split
  · exact hb
  · exact ha

theorem le_rank_foldl_escalate {ds : List PolicyDecisionValue} {d : PolicyDecisionValue}
    {n : Nat} : n ≤ rank (ds.foldl escalate d) ↔ n ≤ rank d ∨ ∃ x ∈ ds, n ≤ rank x := by
  induction ds generalizing d with
  | nil => simp
  | cons x ds ih => simp [ih, le_rank_escalate, or_assoc]

/-- Every contribution of the first list is matched by one at least as
strict in the second. -/
def Covered (ds ds' : List PolicyDecisionValue) : Prop :=
  ∀ d ∈ ds, ∃ d' ∈ ds', rank d ≤ rank d'

theorem Covered.of_subset {ds ds' : List PolicyDecisionValue} (h : ∀ d ∈ ds, d ∈ ds') :
    Covered ds ds' :=
  fun d hd => ⟨d, h d hd, le_refl _⟩

theorem Covered.rank_foldl_le {ds ds' : List PolicyDecisionValue} (h : Covered ds ds')
    (d : PolicyDecisionValue) : rank (ds.foldl escalate d) ≤ rank (ds'.foldl escalate d) := by
  rcases le_rank_foldl_escalate.mp (Nat.le_refl (rank (ds.foldl escalate d))) with
    hd | ⟨x, hx, hle⟩
  · exact le_rank_foldl_escalate.mpr (.inl hd)
  · obtain ⟨x', hx', hxx'⟩ := h x hx
    exact le_rank_foldl_escalate.mpr (.inr ⟨x', hx', Nat.le_trans hle hxx'⟩)

theorem foldl_escalate_valid {ds : List PolicyDecisionValue} {d : PolicyDecisionValue}
    (hd : ValidValue d) (h : ∀ x ∈ ds, ValidValue x) : ValidValue (ds.foldl escalate d) := by
  induction ds generalizing d with
  | nil => exact hd
  | cons x ds ih =>
    exact ih (escalate_valid hd (h x (by simp))) fun y hy => h y (by simp [hy])

theorem foldl_escalate_mem (ds : List PolicyDecisionValue) (d : PolicyDecisionValue) :
    ds.foldl escalate d = d ∨ ds.foldl escalate d ∈ ds := by
  induction ds generalizing d with
  | nil => exact .inl rfl
  | cons x ds ih =>
    rw [List.foldl_cons]
    rcases ih (escalate d x) with h | h
    · rw [h, escalate]
      split
      · exact .inr (by simp)
      · exact .inl rfl
    · exact .inr (by simp [h])

theorem validValue_decisionOr {raw : String} {fallback : PolicyDecisionValue}
    (hraw : raw ≠ "" → validDecision raw = true) (hf : ValidValue fallback) :
    ValidValue (decisionOr raw fallback) := by
  unfold decisionOr
  split
  · exact hf
  · rename_i h
    exact validDecision_iff.mp (hraw h)

/-- A loop whose every round escalates to the contributions of its
element escalates to all of them. -/
theorem foldl_decision {α : Type} {step : Tally → α → Tally}
    {contributions : α → List PolicyDecisionValue}
    (h : ∀ t x, (step t x).decision = (contributions x).foldl escalate t.decision)
    (l : List α) (t : Tally) :
    (l.foldl step t).decision = (l.flatMap contributions).foldl escalate t.decision := by
  induction l generalizing t with
  | nil => rfl
  | cons x l ih => simp [ih, h, List.foldl_append]

/-! ## The contributions of the loops of `evaluateMergedDoc` -/

def executionContribution (spec : Spec) (r : ProviderResult) : List PolicyDecisionValue :=
  if r.execution.status = .completed then
    if r.verdict = none then [decisionOr spec.onMissingVerdict .review] else []
  else if r.execution.status = .timeout then [decisionOr spec.onTimeout .review]
  else [decisionOr spec.onError .review]

def verdictContribution (spec : Spec) (r : ProviderResult) : List PolicyDecisionValue :=
  if r.execution.status ≠ .completed then []
  else
    match r.verdict with
    | none => []
    | some v => (spec.verdicts.lookup v.value.text).toList.map .ofString

def conflictContribution (spec : Spec) (conflicts : List String) : List PolicyDecisionValue :=
  if conflicts ≠ [] then [decisionOr spec.mergeConflicts .review] else []

theorem executionPhase_decision (spec : Spec) (t : Tally) (r : ProviderResult) :
    (executionPhase spec t r).decision =
      (executionContribution spec r).foldl escalate t.decision := by
  unfold executionPhase executionContribution Tally.unfinished Tally.missingVerdict
  split
  · split <;> rfl
  · split <;> rfl

theorem verdictPhase_decision (spec : Spec) (t : Tally) (r : ProviderResult) :
    (verdictPhase spec t r).decision =
      (verdictContribution spec r).foldl escalate t.decision := by
  unfold verdictPhase verdictContribution
  split
  · rfl
  · cases r.verdict with
    | none => rfl
    | some v =>
      simp only [Tally.verdict]
      cases spec.verdicts.lookup v.value.text <;> rfl

theorem executionContribution_valid {spec : Spec} (hs : spec.Sound) {r : ProviderResult}
    {d : PolicyDecisionValue} (h : d ∈ executionContribution spec r) : ValidValue d := by
  have hreview : ValidValue .review := by simp [ValidValue]
  unfold executionContribution at h
  split at h
  · split at h
    · rw [List.mem_singleton.mp h]
      exact validValue_decisionOr hs.onMissingVerdict hreview
    · simp at h
  · split at h
    · rw [List.mem_singleton.mp h]
      exact validValue_decisionOr hs.onTimeout hreview
    · rw [List.mem_singleton.mp h]
      exact validValue_decisionOr hs.onError hreview

theorem verdictContribution_valid {spec : Spec} (hs : spec.Sound) {r : ProviderResult}
    {d : PolicyDecisionValue} (h : d ∈ verdictContribution spec r) : ValidValue d := by
  unfold verdictContribution at h
  split at h
  · simp at h
  · split at h
    · simp at h
    · rename_i v _
      obtain ⟨mapped, hmapped, rfl⟩ := List.mem_map.mp h
      exact validDecision_iff.mp (hs.verdicts _ _ (Option.mem_toList.mp hmapped))

section Rules

variable [GoStd]

def ruleContribution (spec : Spec) (f : Finding) : List PolicyDecisionValue :=
  (spec.findings.find? fun rule => whenMatches rule.when f).toList.map fun rule =>
    .ofString rule.decision

def findingContribution (spec : Spec) (mf : MergedFinding) : List PolicyDecisionValue :=
  conflictContribution spec mf.consensus.conflicts ++ ruleContribution spec (synthetic mf)

theorem findingPhase_decision (spec : Spec) (t : Tally) (mf : MergedFinding) :
    (findingPhase spec t mf).decision =
      (findingContribution spec mf).foldl escalate t.decision := by
  unfold findingPhase findingContribution conflictContribution ruleContribution matchFinding
  cases spec.findings.find? fun rule => whenMatches rule.when (synthetic mf) <;>
    by_cases hc : mf.consensus.conflicts = [] <;>
    simp [hc, Tally.raise, Tally.because]

/-- All contributions of an evaluation on merged findings. -/
def mergedContributions (spec : Spec) (results : List ProviderResult) (merged : MergedResult) :
    List PolicyDecisionValue :=
  results.flatMap (executionContribution spec) ++ results.flatMap (verdictContribution spec) ++
    merged.findings.flatMap (findingContribution spec)

theorem Tally.record_decision (doc : Document) (sub : Submission) (env : EvalEnv)
    (inputs : List String) (t : Tally) : (t.record doc sub env inputs).decision = t.decision := by
  unfold Tally.record
  split <;> rfl

/-- `evaluateMergedDoc` decides the largest of its contributions. -/
theorem evaluateMergedDoc_decision (doc : Document) (sub : Submission)
    (results : List ProviderResult) (merged : MergedResult) (env : EvalEnv) :
    (evaluateMergedDoc doc sub results merged env).decision =
      (mergedContributions doc.spec results merged).foldl escalate .allow := by
  unfold evaluateMergedDoc mergedContributions
  rw [Tally.record_decision, foldl_decision (findingPhase_decision doc.spec),
    foldl_decision (verdictPhase_decision doc.spec),
    foldl_decision (executionPhase_decision doc.spec)]
  simp [List.foldl_append, Tally.start]

theorem ruleContribution_valid {spec : Spec} (hs : spec.Sound) {f : Finding}
    {d : PolicyDecisionValue} (h : d ∈ ruleContribution spec f) : ValidValue d := by
  obtain ⟨rule, hrule, rfl⟩ := List.mem_map.mp h
  exact validDecision_iff.mp
    (hs.findings rule (List.mem_of_find?_eq_some (Option.mem_toList.mp hrule)))

theorem findingContribution_valid {spec : Spec} (hs : spec.Sound) {mf : MergedFinding}
    {d : PolicyDecisionValue} (h : d ∈ findingContribution spec mf) : ValidValue d := by
  rcases List.mem_append.mp h with h | h
  · unfold conflictContribution at h
    split at h
    · rw [List.mem_singleton.mp h]
      exact validValue_decisionOr hs.mergeConflicts (by simp [ValidValue])
    · simp at h
  · exact ruleContribution_valid hs h

theorem mergedContributions_valid (d : ValidDocument) {results : List ProviderResult}
    {merged : MergedResult} {x : PolicyDecisionValue}
    (hx : x ∈ mergedContributions d.doc.spec results merged) : ValidValue x := by
  simp only [mergedContributions, List.mem_append, List.mem_flatMap] at hx
  obtain (⟨r, -, hx⟩ | ⟨r, -, hx⟩) | ⟨mf, -, hx⟩ := hx
  · exact executionContribution_valid d.sound hx
  · exact verdictContribution_valid d.sound hx
  · exact findingContribution_valid d.sound hx

/-- A valid document decides one of the four values. -/
theorem evaluateMergedDoc_valid (d : ValidDocument) (sub : Submission)
    (results : List ProviderResult) (merged : MergedResult) (env : EvalEnv) :
    ValidValue (evaluateMergedDoc d.doc sub results merged env).decision := by
  rw [evaluateMergedDoc_decision]
  exact foldl_escalate_valid (by simp [ValidValue]) fun _ => mergedContributions_valid d

end Rules

/-! ## What a rule sees of a finding -/

/-- The invariant of the loop of `topSeverity`: `st` is what the scores
seen so far leave. -/
structure TopState (seen : List Float64) (st : Float64 × Option SeverityObservation) : Prop where
  top : Float64.IsTop seen st.1
  counted : ∀ x ∈ seen, Float64.le .zero x = true
  none_iff : st.2 = none ↔ seen = []
  scored : ∀ s, st.2 = some s → s.score ≠ none

theorem TopState.zero_le {seen : List Float64} {st : Float64 × Option SeverityObservation}
    (h : TopState seen st) : Float64.le .zero st.1 = true := by
  rcases h.top with ⟨-, h0⟩ | ⟨hmem, -⟩
  · rw [h0]
    exact Float64.le_refl (by simp [Float64.zero])
  · exact h.counted _ hmem

theorem TopState.le_top {seen : List Float64} {st : Float64 × Option SeverityObservation}
    (h : TopState seen st) {x : Float64} (hx : x ∈ seen) : Float64.le x st.1 = true := by
  rcases h.top with ⟨rfl, -⟩ | ⟨-, hall⟩
  · simp at hx
  · exact hall x hx

section Profiles

variable [GoStd]

/-- The score of an observation, if `topSeverity` can pick it for a
scheme: the scheme matches and the score is at least zero. -/
def countedScore (scheme : String) (s : SeverityObservation) : Option Float64 :=
  if scheme ≠ "" ∧ !equalFold s.scheme scheme then none
  else s.score.filter fun x => Float64.le .zero x

def countedScores (scheme : String) (obs : List SeverityObservation) : List Float64 :=
  obs.filterMap (countedScore scheme)

/-- The top score for a scheme, if any score counts. -/
def topScore (obs : List SeverityObservation) (scheme : String) : Option Float64 :=
  let st := obs.foldl (topRound scheme) (Float64.zero, none)
  st.2.map fun _ => st.1

theorem countedScore_eq_some {scheme : String} {s : SeverityObservation} {x : Float64} :
    countedScore scheme s = some x ↔
      (scheme ≠ "" → equalFold s.scheme scheme = true) ∧ s.score = some x ∧
        Float64.le .zero x = true := by
  unfold countedScore
  by_cases h : scheme ≠ "" ∧ !equalFold s.scheme scheme
  · simp_all
  · rw [if_neg h, Option.filter_eq_some_iff]
    simp_all

/-- From a top of at least zero, a round looks at counted scores only. -/
theorem topRound_eq {scheme : String} {st : Float64 × Option SeverityObservation}
    (h : Float64.le .zero st.1 = true) (s : SeverityObservation) :
    topRound scheme st s =
      match countedScore scheme s with
      | none => st
      | some x => if Float64.le st.1 x then (x, some s) else st := by
  unfold topRound countedScore
  by_cases hs : scheme ≠ "" ∧ !equalFold s.scheme scheme
  · simp only [if_pos hs]
  simp only [if_neg hs]
  cases s.score with
  | none => rfl
  | some x =>
    by_cases hx : Float64.le .zero x = true
    · simp [Option.filter, hx]
    · have hle : ¬ Float64.le st.1 x = true := fun hle => hx (Float64.le_trans h hle)
      simp [Option.filter, hx, hle]

theorem TopState.round {seen : List Float64} {st : Float64 × Option SeverityObservation}
    (h : TopState seen st) (scheme : String) (s : SeverityObservation) :
    TopState (seen ++ (countedScore scheme s).toList) (topRound scheme st s) := by
  rw [topRound_eq h.zero_le]
  cases hc : countedScore scheme s with
  | none => simpa using h
  | some x =>
    obtain ⟨-, hscore, hx0⟩ := countedScore_eq_some.mp hc
    have hcounted : ∀ y ∈ seen ++ [x], Float64.le .zero y = true := by
      intro y hy
      rcases List.mem_append.mp hy with hy | hy
      · exact h.counted y hy
      · rwa [List.mem_singleton.mp hy]
    simp only [Option.toList_some]
    split
    · rename_i hle
      refine ⟨.inr ⟨by simp, fun y hy => ?_⟩, hcounted, by simp, by simp [hscore]⟩
      rcases List.mem_append.mp hy with hy | hy
      · exact Float64.le_trans (h.le_top hy) hle
      · rw [List.mem_singleton.mp hy]
        exact Float64.le_refl (Float64.ne_nan_of_le hx0).2
    · -- the score is below the top, which is then the score of an earlier one
      rename_i hle
      have hmem : st.1 ∈ seen := by
        rcases h.top with ⟨-, h0⟩ | ⟨hmem, -⟩
        · exact absurd (h0 ▸ hx0) hle
        · exact hmem
      have hxt : Float64.le x st.1 = true := by
        rcases Float64.lt_or_le (Float64.ne_nan_of_le hx0).2 (Float64.ne_nan_of_le h.zero_le).2
          with hlt | hle'
        · exact Float64.le_of_lt hlt
        · exact absurd hle' hle
      refine ⟨.inr ⟨by simp [hmem], fun y hy => ?_⟩, hcounted, ?_, h.scored⟩
      · rcases List.mem_append.mp hy with hy | hy
        · exact h.le_top hy
        · rwa [List.mem_singleton.mp hy]
      · simp [h.none_iff, List.ne_nil_of_mem hmem]

theorem topState_foldl (scheme : String) (obs : List SeverityObservation) :
    TopState (countedScores scheme obs) (obs.foldl (topRound scheme) (Float64.zero, none)) := by
  suffices hgo : ∀ (obs : List SeverityObservation) (seen : List Float64)
      (st : Float64 × Option SeverityObservation), TopState seen st →
      TopState (seen ++ countedScores scheme obs) (obs.foldl (topRound scheme) st) by
    simpa using hgo obs [] (Float64.zero, none)
      ⟨.inl ⟨rfl, rfl⟩, by simp, by simp, by simp⟩
  intro obs
  induction obs with
  | nil =>
    intro seen st h
    simpa [countedScores] using h
  | cons s obs ih =>
    intro seen st h
    have := ih _ _ (h.round scheme s)
    rwa [List.append_assoc, show (countedScore scheme s).toList ++ countedScores scheme obs =
      countedScores scheme (s :: obs) by
        cases hc : countedScore scheme s <;> simp [countedScores, hc]] at this

/-- The top score is the same for two lists of observations of which one
has only scores of the other, up to domination. -/
theorem topScore_eq_of_dominated {obs obs' : List SeverityObservation} {scheme : String}
    (hsub : ∀ x ∈ countedScores scheme obs', x ∈ countedScores scheme obs)
    (hdom : ∀ x ∈ countedScores scheme obs,
      ∃ y ∈ countedScores scheme obs', Float64.le x y = true) :
    topScore obs' scheme = topScore obs scheme := by
  have h := topState_foldl scheme obs
  have h' := topState_foldl scheme obs'
  have htop := Float64.IsTop.unique h.top (Float64.IsTop.of_dominated hsub hdom h'.top)
  have hnil : countedScores scheme obs' = [] ↔ countedScores scheme obs = [] := by
    constructor
    · intro hn
      refine List.eq_nil_iff_forall_not_mem.mpr fun x hx => ?_
      obtain ⟨y, hy, -⟩ := hdom x hx
      simp [hn] at hy
    · intro hn
      exact List.eq_nil_iff_forall_not_mem.mpr fun x hx => by simpa [hn] using hsub x hx
  unfold topScore
  simp only [htop]
  cases hs' : (obs'.foldl (topRound scheme) (Float64.zero, none)).2 with
  | none =>
    have : (obs.foldl (topRound scheme) (Float64.zero, none)).2 = none :=
      h.none_iff.mpr (hnil.mp (h'.none_iff.mp hs'))
    simp [this]
  | some s =>
    cases hs : (obs.foldl (topRound scheme) (Float64.zero, none)).2 with
    | none =>
      rw [h'.none_iff.mpr (hnil.mpr (h.none_iff.mp hs))] at hs'
      cases hs'
    | some _ => rfl

/-- What the conditions of a rule can read of a finding. -/
structure Profile where
  type : String
  status : Option AssessmentStatus
  top : String → Option Float64

def profileOf (f : Finding) : Profile :=
  { type := f.type, status := f.assessment.map (·.status), top := topScore f.severity }

def Profile.meets (p : Profile) (w : FindingWhen) : Bool :=
  (w.findingType = "" ∨ p.type = w.findingType) ∧
  (w.assessment = "" ∨ p.status.map (·.text) = some w.assessment) ∧
  (w.severityScheme = "" ∨ p.top w.severityScheme ≠ none) ∧
  (match w.minScore with
    | none => true
    | some m => match p.top w.severityScheme with
      | none => false
      | some x => !Float64.lt x m) = true

theorem whenMatches_eq (w : FindingWhen) (f : Finding) :
    whenMatches w f = (profileOf f).meets w := by
  have hst := topState_foldl w.severityScheme f.severity
  obtain ⟨⟨score, sev⟩, hfold⟩ :
      ∃ st, f.severity.foldl (topRound w.severityScheme) (Float64.zero, none) = st := ⟨_, rfl⟩
  rw [hfold] at hst
  have htop : topScore f.severity w.severityScheme = sev.map fun _ => score := by
    simp [topScore, hfold]
  simp only [whenMatches, topSeverity, hfold, Profile.meets, profileOf, htop, Option.map_map]
  -- the conditions in the order of the source
  by_cases htype : w.findingType ≠ "" ∧ f.type ≠ w.findingType
  · simp [htype]
  by_cases hassess : w.assessment ≠ "" ∧ f.assessment.map (·.status.text) ≠ some w.assessment
  · rw [if_neg htype, if_pos hassess]
    have := hassess.2
    simp_all [Function.comp_def]
  rw [if_neg htype, if_neg hassess]
  have h1 : w.findingType = "" ∨ f.type = w.findingType := by tauto
  have h2 : w.assessment = "" ∨
      f.assessment.map ((·.text) ∘ (·.status)) = some w.assessment := by
    by_contra hn
    rw [not_or] at hn
    exact hassess hn
  simp only [h1, h2, true_and]
  cases sev with
  | none => cases w.minScore <;> simp
  | some s =>
    have := hst.scored s rfl
    cases w.minScore <;> simp [this]

/-- The first rule a profile meets, as a contribution. -/
def profileContribution (spec : Spec) (p : Profile) : List PolicyDecisionValue :=
  (spec.findings.find? fun rule => p.meets rule.when).toList.map fun rule =>
    .ofString rule.decision

theorem ruleContribution_eq (spec : Spec) (f : Finding) :
    ruleContribution spec f = profileContribution spec (profileOf f) := by
  simp [ruleContribution, profileContribution, whenMatches_eq]

end Profiles

end Scintx.Policy
