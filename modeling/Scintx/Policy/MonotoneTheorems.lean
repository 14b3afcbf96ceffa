/-
Scintx.Policy.MonotoneTheorems — documents under which evidence only
counts against an artifact.

The rules of a GRADED document ask for no type, for no assessment other
than `affected`, and come with the strictest decision first. Under such
a document a finding that is worse meets every rule the better one
meets, so the first rule it meets is at least as strict.

"Worse" is `Profile.Below`. Merging is monotone for it at both ends: a
raw finding is below the group it is merged into, and a group is below
the same group with further observations. The two results on decisions
are these two facts, carried through the maximum of the contributions.
-/
import Scintx.Policy.MergedTheorems
import Scintx.Policy.RawTheorems

namespace Scintx.Policy

open Scintx.Lib Scintx.Api Scintx.Orchestrator

/-! ## Graded documents -/

/-- The strictest rules come first and no rule asks for anything that
further evidence could take away. -/
structure Spec.Graded (spec : Spec) : Prop where
  untyped : ∀ rule ∈ spec.findings, rule.when.findingType = ""
  assessment : ∀ rule ∈ spec.findings,
    rule.when.assessment = "" ∨ rule.when.assessment = "affected"
  descending : spec.findings.Pairwise fun a b =>
    rank (.ofString b.decision) ≤ rank (.ofString a.decision)

instance (spec : Spec) : Decidable spec.Graded :=
  decidable_of_iff
    ((∀ rule ∈ spec.findings, rule.when.findingType = "") ∧
      (∀ rule ∈ spec.findings, rule.when.assessment = "" ∨ rule.when.assessment = "affected") ∧
      spec.findings.Pairwise fun a b =>
        rank (.ofString b.decision) ≤ rank (.ofString a.decision))
    ⟨fun ⟨h₁, h₂, h₃⟩ => ⟨h₁, h₂, h₃⟩, fun ⟨h₁, h₂, h₃⟩ => ⟨h₁, h₂, h₃⟩⟩

/-- `q` is affected if `p` is, and scores at least as high in every
scheme. -/
structure Profile.Below (p q : Profile) : Prop where
  status : p.status = some .affected → q.status = some .affected
  top : ∀ scheme x, p.top scheme = some x → ∃ y, q.top scheme = some y ∧ Float64.le x y = true

theorem AssessmentStatus.eq_affected_of_text {s : AssessmentStatus} (h : s.text = "affected") :
    s = .affected := by
  cases s with
  | affected => rfl
  | other t ht => exact absurd (by simp [show t = "affected" from h]) ht
  | _ => exact absurd h (by decide)

theorem Profile.Below.meets {p q : Profile} (hpq : p.Below q) {w : FindingWhen}
    (htype : w.findingType = "") (hassess : w.assessment = "" ∨ w.assessment = "affected")
    (hp : p.meets w = true) : q.meets w = true := by
  simp only [Profile.meets, decide_eq_true_eq] at hp ⊢
  obtain ⟨-, hstatus, hscheme, hscore⟩ := hp
  refine ⟨.inl htype, ?_, ?_, ?_⟩
  · rcases hassess with hnone | haff
    · exact .inl hnone
    · rcases hstatus with h | h
      · exact .inl h
      · obtain ⟨s, hs, hsw⟩ := Option.map_eq_some_iff.mp h
        have hsa := AssessmentStatus.eq_affected_of_text (hsw.trans haff)
        right
        rw [hpq.status (by rw [hs, hsa]), haff]
        rfl
  · rcases hscheme with h | h
    · exact .inl h
    · obtain ⟨x, hx⟩ := Option.ne_none_iff_exists'.mp h
      obtain ⟨y, hy, -⟩ := hpq.top _ x hx
      exact .inr (by simp [hy])
  · cases hm : w.minScore with
    | none => rfl
    | some m =>
      simp only [hm] at hscore
      cases hx : p.top w.severityScheme with
      | none => simp [hx] at hscore
      | some x =>
        obtain ⟨y, hy, hxy⟩ := hpq.top _ x hx
        simp only [hx, Bool.not_eq_true'] at hscore
        simp only [hy, Bool.not_eq_true']
        exact Float64.lt_eq_false_of_le hxy hscore

/-- Under a graded document the worse profile gets the stricter rule. -/
theorem Spec.Graded.covered_profile {spec : Spec} (hg : spec.Graded) {p q : Profile}
    (hpq : p.Below q) : Covered (profileContribution spec p) (profileContribution spec q) := by
  intro d hd
  obtain ⟨rule, hrule, rfl⟩ := List.mem_map.mp hd
  obtain ⟨rule', hrule', hle⟩ := find?_weaken_of_descending hg.descending
    (fun r hr hmeets => hpq.meets (hg.untyped r hr) (hg.assessment r hr) hmeets)
    (Option.mem_toList.mp hrule)
  exact ⟨_, List.mem_map.mpr ⟨rule', Option.mem_toList.mpr hrule', rfl⟩, hle⟩

section Groups

variable [GoStd]

theorem topScore_eq_some {obs : List SeverityObservation} {scheme : String} {x : Float64}
    (h : topScore obs scheme = some x) : x ∈ countedScores scheme obs := by
  have hst := topState_foldl scheme obs
  obtain ⟨s, hs, hx⟩ := Option.map_eq_some_iff.mp h
  rcases hst.top with ⟨hnil, -⟩ | ⟨hmem, -⟩
  · rw [hst.none_iff.mpr hnil] at hs
    cases hs
  · exact hx ▸ hmem

theorem le_topScore {obs : List SeverityObservation} {scheme : String} {x : Float64}
    (hx : x ∈ countedScores scheme obs) :
    ∃ y, topScore obs scheme = some y ∧ Float64.le x y = true := by
  have hst := topState_foldl scheme obs
  cases hs : (obs.foldl (topRound scheme) (Float64.zero, none)).2 with
  | none => simp [hst.none_iff.mp hs] at hx
  | some s => exact ⟨_, by simp [topScore, hs], hst.le_top hx⟩

/-- More observations, a score at least as high. -/
theorem topScore_mono {obs obs' : List SeverityObservation} (hsub : ∀ s ∈ obs, s ∈ obs')
    {scheme : String} {x : Float64} (h : topScore obs scheme = some x) :
    ∃ y, topScore obs' scheme = some y ∧ Float64.le x y = true := by
  obtain ⟨s, hs, hsx⟩ := List.mem_filterMap.mp (topScore_eq_some h)
  exact le_topScore (List.mem_filterMap.mpr ⟨s, hsub s hs, hsx⟩)

/-- A raw finding is below the group it is merged into. -/
theorem profileOf_below_group {p : SourcePair} {pairs : List SourcePair} (hp : p ∈ pairs)
    (type : String) : (profileOf p.finding).Below (groupProfile type pairs) where
  status := by
    intro h
    exact reconciledStatus_of_affected (List.mem_filterMap.mpr ⟨p, hp, h⟩)
  top := by
    intro scheme x hx
    exact topScore_mono (fun s hs => List.mem_flatMap.mpr ⟨p, hp, hs⟩) hx

/-- A group is below every group with more observations. -/
theorem groupProfile_below {pairs pairs' : List SourcePair} (hsub : ∀ p ∈ pairs, p ∈ pairs')
    (type type' : String) : (groupProfile type pairs).Below (groupProfile type' pairs') where
  status := by
    intro h
    obtain ⟨p, hp, hs⟩ := List.mem_filterMap.mp (affected_of_reconciledStatus h)
    exact reconciledStatus_of_affected (List.mem_filterMap.mpr ⟨p, hsub p hp, hs⟩)
  top := by
    intro scheme x hx
    refine topScore_mono (fun s hs => ?_) hx
    obtain ⟨p, hp, hs⟩ := List.mem_flatMap.mp hs
    exact List.mem_flatMap.mpr ⟨p, hsub p hp, hs⟩

/-! ## The contributions of the groups under `max` -/

/-- The aggregator of strategy `max` with the given trust weights. -/
def maxAggregator (weights : GoMap Float64) : DefaultAggregator :=
  { strategy := "max", providerWeights := weights }

/-- What a group of observations contributes, under the type of its
first. -/
def groupContribution (spec : Spec) (pairs : List SourcePair) : List PolicyDecisionValue :=
  match pairs with
  | [] => []
  | p₀ :: _ =>
    conflictContribution spec (reconcileAssessment pairs).2 ++
      profileContribution spec (groupProfile p₀.finding.type pairs)

/-- The merged findings contribute what their groups do. -/
theorem mem_merged_iff {spec : Spec} {results : List ProviderResult}
    (hn : Numeric (severities (observations results))) (weights : GoMap Float64)
    (randHex : String) (now : Time) {d : PolicyDecisionValue} :
    d ∈ ((maxAggregator weights).aggregate randHex now results).findings.flatMap
        (findingContribution spec) ↔
      ∃ key, d ∈ groupContribution spec (groupOf results key) := by
  have hmax : (if (maxAggregator weights).strategy = "" then "max"
      else (maxAggregator weights).strategy) = "max" :=
    if_neg (show ("max" : String) ≠ "" by decide)
  simp only [DefaultAggregator.aggregate, hmax, List.mem_flatMap, List.mem_filterMap,
    Prod.exists, mem_groupBy]
  constructor
  · rintro ⟨mf, ⟨key, pairs, ⟨hpairs, -⟩, hmf⟩, hd⟩
    refine ⟨key, ?_⟩
    cases hg : groupOf results key with
    | nil =>
      rw [show pairs = [] from hpairs.trans hg] at hmf
      cases hmf
    | cons p₀ ps =>
      rw [show pairs = p₀ :: ps from hpairs.trans hg] at hmf
      simp only [Option.some.injEq] at hmf
      subst hmf
      rwa [findingContribution_group hn hg, hg] at hd
  · rintro ⟨key, hd⟩
    cases hg : groupOf results key with
    | nil => simp [hg, groupContribution] at hd
    | cons p₀ ps =>
      refine ⟨buildMergedFinding key p₀ ps "max" weights,
        ⟨key, p₀ :: ps, ⟨hg.symm, by simp⟩, rfl⟩, ?_⟩
      rw [findingContribution_group hn hg, hg]
      rwa [hg] at hd

theorem groupContribution_eq (spec : Spec) {pairs : List SourcePair} {p : SourcePair}
    (hp : p ∈ pairs) : ∃ type, groupContribution spec pairs =
      conflictContribution spec (reconcileAssessment pairs).2 ++
        profileContribution spec (groupProfile type pairs) := by
  cases pairs with
  | nil => simp at hp
  | cons p₀ ps => exact ⟨p₀.finding.type, rfl⟩

omit [GoStd] in
/-- Conflicts do not go away when sources are added. -/
theorem covered_conflict {spec : Spec} {pairs pairs' : List SourcePair}
    (hsub : ∀ p ∈ pairs, p ∈ pairs') :
    Covered (conflictContribution spec (reconcileAssessment pairs).2)
      (conflictContribution spec (reconcileAssessment pairs').2) := by
  have hmem : ∀ s, s ∈ statuses pairs → s ∈ statuses pairs' := by
    intro s hs
    obtain ⟨p, hp, hps⟩ := List.mem_filterMap.mp hs
    exact List.mem_filterMap.mpr ⟨p, hsub p hp, hps⟩
  intro d hd
  unfold conflictContribution at hd ⊢
  split at hd
  · rename_i hc
    obtain ⟨haff, hnot⟩ := (reconcileAssessment_spec pairs).2.mp hc
    rw [if_pos ((reconcileAssessment_spec pairs').2.mpr ⟨hmem _ haff, hmem _ hnot⟩)]
    exact ⟨d, hd, Nat.le_refl _⟩
  · simp at hd

/-- Under a graded document a group with more observations contributes
at least as much. -/
theorem Spec.Graded.covered_group {spec : Spec} (hg : spec.Graded) {pairs pairs' : List SourcePair}
    (hsub : ∀ p ∈ pairs, p ∈ pairs') :
    Covered (groupContribution spec pairs) (groupContribution spec pairs') := by
  cases pairs with
  | nil => exact fun d hd => by simp [groupContribution] at hd
  | cons p₀ ps =>
    intro d hd
    obtain ⟨type, hgroup⟩ := groupContribution_eq spec (hsub p₀ (by simp))
    rw [hgroup]
    rcases List.mem_append.mp hd with hd | hd
    · obtain ⟨d', hd', hle⟩ := covered_conflict hsub d hd
      exact ⟨d', List.mem_append_left _ hd', hle⟩
    · obtain ⟨d', hd', hle⟩ := hg.covered_profile (groupProfile_below hsub _ type) d hd
      exact ⟨d', List.mem_append_right _ hd', hle⟩

/-! ## The findings of `evaluateDoc` -/

omit [GoStd] in
/-- Every finding `evaluateDoc` looks at is an observation. -/
theorem mem_observations_of_rawFindings {results : List ProviderResult} {r : ProviderResult}
    (hr : r ∈ results) {f : Finding} (hf : f ∈ rawFindings r) :
    { result := r, finding := f } ∈ observations results := by
  unfold rawFindings at hf
  split at hf
  · simp at hf
  · split at hf
    · rename_i h
      refine List.mem_flatMap.mpr ⟨r, hr, ?_⟩
      simp [observationsOf, h.1, hf]
    · simp at hf

/-! ## Deduplication and further evidence -/

/-- **Deduplication never relaxes the gate.** Under a graded document the
decision on the merged findings is at least as strict as the decision on
the raw ones. -/
theorem merged_decision_at_least_raw (d : ValidDocument) (hg : d.doc.spec.Graded)
    (sub : Submission) (results : List ProviderResult)
    (hn : Numeric (severities (observations results))) (weights : GoMap Float64)
    (randHex : String) (now : Time) (env env' : EvalEnv) :
    rank (evaluateDoc d.doc sub results env).decision ≤
      rank (evaluateMergedDoc d.doc sub results
        ((maxAggregator weights).aggregate randHex now results) env').decision := by
  rw [evaluateDoc_decision, evaluateMergedDoc_decision]
  refine Covered.rank_foldl_le (fun x hx => ?_) .allow
  obtain ⟨r, hr, hx⟩ := List.mem_flatMap.mp hx
  simp only [rawContribution, List.mem_append] at hx
  simp only [mergedContributions, List.mem_append]
  rcases hx with (hx | hx) | hx
  · exact ⟨x, .inl (.inl (List.mem_flatMap.mpr ⟨r, hr, hx⟩)), Nat.le_refl _⟩
  · exact ⟨x, .inl (.inr (List.mem_flatMap.mpr ⟨r, hr, hx⟩)), Nat.le_refl _⟩
  · -- the finding's rule is covered by the rule of its group
    obtain ⟨f, hf, hx⟩ := List.mem_flatMap.mp hx
    have hobs := mem_observations_of_rawFindings hr hf
    have hgroup : { result := r, finding := f } ∈ groupOf results (correlationKey r f) :=
      List.mem_filter.mpr ⟨hobs, by simp [SourcePair.key]⟩
    obtain ⟨type, hcontrib⟩ := groupContribution_eq d.doc.spec hgroup
    rw [ruleContribution_eq] at hx
    obtain ⟨x', hx', hle⟩ := hg.covered_profile (profileOf_below_group hgroup type) x hx
    refine ⟨x', .inr ((mem_merged_iff hn weights randHex now).mpr
      ⟨correlationKey r f, ?_⟩), hle⟩
    rw [hcontrib]
    exact List.mem_append_right _ hx'

/-- Among results whose scores are numbers, more of them decide at least
as strictly. -/
theorem rank_merged_mono {doc : Document} (hg : doc.spec.Graded) (sub : Submission)
    {results results' : List ProviderResult}
    (hsub : ∀ r ∈ results, r ∈ results')
    (hn : Numeric (severities (observations results')))
    (weights : GoMap Float64) (randHex randHex' : String) (now now' : Time)
    (env env' : EvalEnv) :
    rank (evaluateMergedDoc doc sub results
        ((maxAggregator weights).aggregate randHex now results) env).decision ≤
      rank (evaluateMergedDoc doc sub results'
        ((maxAggregator weights).aggregate randHex' now' results') env').decision := by
  have hobs : ∀ p ∈ observations results, p ∈ observations results' := by
    intro p hp
    obtain ⟨r, hr, hp⟩ := List.mem_flatMap.mp hp
    exact List.mem_flatMap.mpr ⟨r, hsub r hr, hp⟩
  have hn₀ : Numeric (severities (observations results)) := by
    intro s hs
    obtain ⟨p, hp, hs⟩ := List.mem_flatMap.mp hs
    exact hn s (List.mem_flatMap.mpr ⟨p, hobs p hp, hs⟩)
  rw [evaluateMergedDoc_decision, evaluateMergedDoc_decision]
  refine Covered.rank_foldl_le (fun x hx => ?_) .allow
  simp only [mergedContributions, List.mem_append] at hx ⊢
  rcases hx with (hx | hx) | hx
  · obtain ⟨r, hr, hx⟩ := List.mem_flatMap.mp hx
    exact ⟨x, .inl (.inl (List.mem_flatMap.mpr ⟨r, hsub r hr, hx⟩)), Nat.le_refl _⟩
  · obtain ⟨r, hr, hx⟩ := List.mem_flatMap.mp hx
    exact ⟨x, .inl (.inr (List.mem_flatMap.mpr ⟨r, hsub r hr, hx⟩)), Nat.le_refl _⟩
  · obtain ⟨key, hx⟩ := (mem_merged_iff hn₀ weights randHex now).mp hx
    have hgroup : ∀ p ∈ groupOf results key, p ∈ groupOf results' key := fun p hp =>
      List.mem_filter.mpr ⟨hobs p (List.mem_filter.mp hp).1, (List.mem_filter.mp hp).2⟩
    obtain ⟨x', hx', hle⟩ := hg.covered_group hgroup x hx
    exact ⟨x', .inr ((mem_merged_iff hn weights randHex' now').mpr ⟨key, hx'⟩), hle⟩

/-- **More evidence never relaxes the gate.** Under a graded document,
putting one more result anywhere into the list leaves the decision at
least as strict, as long as every score is a number. -/
theorem merged_decision_insert_mono (d : ValidDocument) (hg : d.doc.spec.Graded)
    (sub : Submission) (before after : List ProviderResult) (r : ProviderResult)
    (hn : Numeric (severities (observations (before ++ r :: after))))
    (weights : GoMap Float64) (randHex randHex' : String) (now now' : Time)
    (env env' : EvalEnv) :
    rank (evaluateMergedDoc d.doc sub (before ++ after)
        ((maxAggregator weights).aggregate randHex now (before ++ after)) env).decision ≤
      rank (evaluateMergedDoc d.doc sub (before ++ r :: after)
        ((maxAggregator weights).aggregate randHex' now' (before ++ r :: after))
        env').decision := by
  refine rank_merged_mono hg sub (fun x hx => ?_) hn weights randHex randHex' now now' env env'
  rcases List.mem_append.mp hx with hx | hx
  · exact List.mem_append_left _ hx
  · exact List.mem_append_right _ (List.mem_cons_of_mem _ hx)

end Groups

/-! ## Reports on one vulnerability -/

/-- A document that denies a vulnerability that is affected and scores
at least nine. -/
def denyCritical : Document where
  apiVersion := "scintx.policy/v1"
  kind := "Policy"
  metadata := { id := "default", version := "1" }
  spec :=
    { findings :=
        [{ when := { assessment := "affected", severityScheme := "cvss", minScore := some (.fin 9) }
           decision := "deny", reasonCode := "critical" },
         { when := { severityScheme := "CVSS", minScore := some (.fin 11) }
           decision := "review", reasonCode := "scored" }] }

theorem denyCritical_valid : @Document.validate GoStd.plain denyCritical [] = .ok () := by
  decide

/-- A completed result with one finding about the same vulnerability. -/
def scoredReport (provider : String) (score : Option Float64)
    (status : Option AssessmentStatus) : ProviderResult where
  id := "res_" ++ provider
  provider := { id := provider }
  execution := { status := .completed }
  verdict := some { value := .fail }
  findings :=
    [{ id := "f_" ++ provider, type := "vulnerability"
       identifiers := [{ scheme := "CVE", value := "CVE-2024-1" }]
       severity := [{ scheme := "CVSS", score := score }]
       assessment := status.map fun s => { status := s } }]

/-- One report has the assessment, the other the score: only together
they meet the rule. -/
theorem merged_decision_at_least_raw_joined :
    letI := GoStd.plain
    let results := [scoredReport "a" none (some .affected), scoredReport "b" (some (.fin 10)) none]
    let env : EvalEnv := { randHex := "d", now := 0, resumeFrom := 0 }
    let sub : Submission := { id := "sub", status := .running }
    (evaluateDoc denyCritical sub results env).decision = .allow ∧
    (evaluateMergedDoc denyCritical sub results
      ((maxAggregator ∅).aggregate "m" 0 results) env).decision = .deny ∧
    rank (evaluateDoc denyCritical sub results env).decision ≤
      rank (evaluateMergedDoc denyCritical sub results
        ((maxAggregator ∅).aggregate "m" 0 results) env).decision := by
  let _ := GoStd.plain
  refine ⟨by decide +kernel, by decide +kernel, ?_⟩
  exact merged_decision_at_least_raw
    { doc := denyCritical, order := [], visits := by decide, valid := denyCritical_valid }
    (by decide) _ _
    (by simp [Numeric, severities, observations, observationsOf, scoredReport]) ∅ "m" 0 _ _

/-- A further report of the same vulnerability, put in front. -/
theorem merged_decision_insert_mono_front :
    letI := GoStd.plain
    let results := [scoredReport "b" (some (.fin 10)) (some .affected)]
    let env : EvalEnv := { randHex := "d", now := 0, resumeFrom := 0 }
    let sub : Submission := { id := "sub", status := .running }
    rank (evaluateMergedDoc denyCritical sub results
        ((maxAggregator ∅).aggregate "m" 0 results) env).decision ≤
      rank (evaluateMergedDoc denyCritical sub
        (scoredReport "a" (some (.fin 1)) (some .notAffected) :: results)
        ((maxAggregator ∅).aggregate "m" 0
          (scoredReport "a" (some (.fin 1)) (some .notAffected) :: results)) env).decision := by
  let _ := GoStd.plain
  exact merged_decision_insert_mono
    { doc := denyCritical, order := [], visits := by decide, valid := denyCritical_valid }
    (by decide) _ [] [scoredReport "b" (some (.fin 10)) (some .affected)]
    (scoredReport "a" (some (.fin 1)) (some .notAffected))
    (by simp [Numeric, severities, observations, observationsOf, scoredReport]) ∅ "m" "m" 0 0 _ _

/-- A score that is not a number, in front of the others of its scheme,
is what the running maximum starts at: it hides them all. -/
theorem nan_score_hides_others :
    letI := GoStd.plain
    let results := [scoredReport "b" (some (.fin 10)) (some .affected)]
    let more := scoredReport "a" (some .nan) none :: results
    let env : EvalEnv := { randHex := "d", now := 0, resumeFrom := 0 }
    let sub : Submission := { id := "sub", status := .running }
    @Document.validate GoStd.plain denyCritical [] = .ok () ∧ denyCritical.spec.Graded ∧
    (evaluateMergedDoc denyCritical sub results
      ((maxAggregator ∅).aggregate "m" 0 results) env).decision = .deny ∧
    (evaluateMergedDoc denyCritical sub more
      ((maxAggregator ∅).aggregate "m" 0 more) env).decision = .allow := by
  refine ⟨denyCritical_valid, by decide, by decide +kernel, by decide +kernel⟩

end Scintx.Policy
