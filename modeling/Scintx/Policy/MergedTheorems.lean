/-
Scintx.Policy.MergedTheorems — how the decision on merged findings
depends on the order of the provider results.

The store hands results over in map order, so the order is arbitrary.
Almost everything `evaluateMergedDoc` reads of a merged finding is a
matter of WHICH observations its group has (`groupProfile`): the
reconciled status, the conflicts, the top score of a scheme. The type is
not: it is the type of the first observation, and a rule may ask for it.

So the decision is the maximum of contributions that are fixed and of
one contribution a group, which its FIRST CARRIER among the results
chooses. `Lib.reaches_perm_iff_settled` then says exactly when no order
can change the decision.
-/
import Scintx.Orchestrator.AggregatorTheorems
import Scintx.Policy.EvaluateTheorems

namespace Scintx.Policy

open Scintx.Lib Scintx.Api Scintx.Orchestrator

/-! ## Groups -/

theorem conflictContribution_perm {spec : Spec} {pairs pairs' : List SourcePair}
    (h : pairs'.Perm pairs) :
    conflictContribution spec (reconcileAssessment pairs').2 =
      conflictContribution spec (reconcileAssessment pairs).2 := by
  have hmem : ∀ s, s ∈ statuses pairs' ↔ s ∈ statuses pairs := fun s => (h.filterMap _).mem_iff
  have hiff : (reconcileAssessment pairs').2 ≠ [] ↔ (reconcileAssessment pairs).2 ≠ [] := by
    rw [(reconcileAssessment_spec pairs').2, (reconcileAssessment_spec pairs).2, hmem, hmem]
  simp only [conflictContribution, hiff]

section Order

variable [GoStd]

/-- The observations of one correlation key. -/
def groupOf (results : List ProviderResult) (key : String) : List SourcePair :=
  withKey SourcePair.key (observations results) key

/-- What the rules see of a group, given the type it is merged under. -/
def groupProfile (type : String) (pairs : List SourcePair) : Profile :=
  { type := type, status := reconciledStatus (statuses pairs), top := topScore (severities pairs) }

theorem countedScore_eq_of {scheme : String} {s m : SeverityObservation} {x : Float64}
    (hs : countedScore scheme s = some x) (hscheme : m.scheme = s.scheme) {y : Float64}
    (hy : m.score = some y) (hxy : Float64.le x y = true) : countedScore scheme m = some y := by
  obtain ⟨hmatch, -, hx0⟩ := countedScore_eq_some.mp hs
  exact countedScore_eq_some.mpr ⟨hscheme ▸ hmatch, hy, Float64.le_trans hx0 hxy⟩

/-- Merging under `max` keeps the top score of every scheme. -/
theorem topScore_computeSeverity {pairs : List SourcePair} {weights : GoMap Float64}
    (hn : Numeric (severities pairs)) (scheme : String) :
    topScore (computeSeverity pairs "max" weights) scheme = topScore (severities pairs) scheme := by
  refine topScore_eq_of_dominated ?_ ?_
  · intro x hx
    obtain ⟨m, hm, hmx⟩ := List.mem_filterMap.mp hx
    exact List.mem_filterMap.mpr ⟨m, (mem_computeSeverity_max hn hm).1, hmx⟩
  · intro x hx
    obtain ⟨s, hs, hsx⟩ := List.mem_filterMap.mp hx
    obtain ⟨m, hm, hscheme, hversion⟩ := exists_mem_computeSeverity "max" weights hs
    obtain ⟨y, hy, hxy⟩ := (mem_computeSeverity_max hn hm).2 s hs hscheme.symm hversion.symm x
      (countedScore_eq_some.mp hsx).2.1
    exact ⟨y, List.mem_filterMap.mpr ⟨m, hm, countedScore_eq_of hsx hscheme hy hxy⟩, hxy⟩

theorem profileOf_synthetic {key : String} {p₀ : SourcePair} {ps : List SourcePair}
    {weights : GoMap Float64} (hn : Numeric (severities (p₀ :: ps))) :
    profileOf (synthetic (buildMergedFinding key p₀ ps "max" weights)) =
      groupProfile p₀.finding.type (p₀ :: ps) := by
  have htop : topScore (computeSeverity (p₀ :: ps) "max" weights) =
      topScore (severities (p₀ :: ps)) := funext (topScore_computeSeverity hn)
  simp only [profileOf, synthetic, buildMergedFinding, groupProfile, htop,
    (reconcileAssessment_spec (p₀ :: ps)).1]

theorem groupOf_perm {results results' : List ProviderResult} (h : results'.Perm results)
    (key : String) : (groupOf results' key).Perm (groupOf results key) :=
  (h.flatMap_right observationsOf).filter _

theorem countedScores_perm {scheme : String} {obs obs' : List SeverityObservation}
    (h : obs'.Perm obs) {x : Float64} (hx : x ∈ countedScores scheme obs') :
    x ∈ countedScores scheme obs :=
  (h.filterMap _).subset hx

theorem topScore_perm {obs obs' : List SeverityObservation} (h : obs'.Perm obs) :
    topScore obs' = topScore obs := by
  funext scheme
  refine topScore_eq_of_dominated (fun x hx => countedScores_perm h hx) fun x hx => ?_
  obtain ⟨s, -, hs⟩ := List.mem_filterMap.mp hx
  have hx0 := (countedScore_eq_some.mp hs).2.2
  exact ⟨x, countedScores_perm h.symm hx, Float64.le_refl (Float64.ne_nan_of_le hx0).2⟩

theorem groupProfile_perm {pairs pairs' : List SourcePair} (h : pairs'.Perm pairs)
    (type : String) : groupProfile type pairs' = groupProfile type pairs := by
  have hst : reconciledStatus (statuses pairs') = reconciledStatus (statuses pairs) :=
    reconciledStatus_congr fun s => (h.filterMap _).mem_iff
  have htop : topScore (severities pairs') = topScore (severities pairs) :=
    topScore_perm (h.flatMap_right _)
  simp only [groupProfile, hst, htop]

/-! ## Who comes first in a group -/

/-- The first observation of a result in a group. -/
def firstIn (r : ProviderResult) (key : String) : Option SourcePair :=
  (observationsOf r).find? fun p => p.key = key

/-- The result has a finding in the group. -/
def carries (r : ProviderResult) (key : String) : Bool :=
  (firstIn r key).isSome

theorem head?_groupOf (results : List ProviderResult) (key : String) :
    (groupOf results key).head? =
      (firstCarrier carries results key).bind fun r => firstIn r key := by
  induction results with
  | nil => rfl
  | cons r results ih =>
    have hsplit : groupOf (r :: results) key =
        withKey SourcePair.key (observationsOf r) key ++ groupOf results key := by
      simp [groupOf, withKey, observations]
    rw [hsplit, List.head?_append, ih, withKey, List.head?_filter]
    change (firstIn r key).or _ = _
    cases hfirst : firstIn r key with
    | none => simp [carries, hfirst, firstCarrier]
    | some p => simp [carries, hfirst, firstCarrier]

/-- The rank of the rule a group meets when `r` comes first in it. -/
def typeRank (spec : Spec) (results : List ProviderResult) (r : ProviderResult) (key : String) :
    Nat :=
  match firstIn r key with
  | none => 0
  | some p =>
    rank ((profileContribution spec (groupProfile p.finding.type (groupOf results key))).foldl
      escalate .allow)

/-- The contributions no order of the results changes: execution
outcomes, verdicts and assessment conflicts. -/
def fixedContributions (spec : Spec) (results : List ProviderResult) :
    List PolicyDecisionValue :=
  results.flatMap (executionContribution spec) ++ results.flatMap (verdictContribution spec) ++
    (groupBy SourcePair.key (observations results)).flatMap fun g =>
      conflictContribution spec (reconcileAssessment g.2).2

def fixedRank (spec : Spec) (results : List ProviderResult) : Nat :=
  rank ((fixedContributions spec results).foldl escalate .allow)

/-- Whenever the type of some result's finding would lift the decision to
a rank above the fixed contributions, there is a set of results each of
which brings a group that no result outside the set has and that its own
type lifts to that rank. -/
def TypeSettled (spec : Spec) (results : List ProviderResult) : Prop :=
  Settled carries (typeRank spec results) (fixedRank spec results) results

theorem typeRank_perm {spec : Spec} {results results' : List ProviderResult}
    (h : results'.Perm results) : typeRank spec results' = typeRank spec results := by
  funext r key
  simp only [typeRank, groupProfile_perm (groupOf_perm h key)]

theorem mem_fixedContributions_perm {spec : Spec} {results results' : List ProviderResult}
    (h : results'.Perm results) {d : PolicyDecisionValue}
    (hd : d ∈ fixedContributions spec results') : d ∈ fixedContributions spec results := by
  simp only [fixedContributions, List.mem_append, List.mem_flatMap, Prod.exists,
    mem_groupBy] at hd ⊢
  rcases hd with (⟨r, hr, hd⟩ | ⟨r, hr, hd⟩) | ⟨key, _, ⟨rfl, hne⟩, hd⟩
  · exact .inl (.inl ⟨r, h.subset hr, hd⟩)
  · exact .inl (.inr ⟨r, h.subset hr, hd⟩)
  · have hp := groupOf_perm h key
    refine .inr ⟨key, _, ⟨rfl, fun hnil => hne ?_⟩, ?_⟩
    · exact List.Perm.eq_nil (hp.trans (List.Perm.of_eq hnil))
    · exact (conflictContribution_perm hp) ▸ hd

theorem fixedRank_perm {spec : Spec} {results results' : List ProviderResult}
    (h : results'.Perm results) : fixedRank spec results' = fixedRank spec results := by
  have key : ∀ {a b : List ProviderResult}, a.Perm b → fixedRank spec a ≤ fixedRank spec b := by
    intro a b hab
    rw [fixedRank, fixedRank, le_rank_foldl_escalate]
    rcases le_rank_foldl_escalate.mp (Nat.le_refl (rank
        ((fixedContributions spec a).foldl escalate .allow))) with h0 | ⟨d, hd, hle⟩
    · exact .inl h0
    · exact .inr ⟨d, mem_fixedContributions_perm hab hd, hle⟩
  exact Nat.le_antisymm (key h) (key h.symm)

theorem numeric_groupOf {results : List ProviderResult}
    (hn : Numeric (severities (observations results))) (key : String) :
    Numeric (severities (groupOf results key)) := by
  intro s hs
  obtain ⟨p, hp, hs⟩ := List.mem_flatMap.mp hs
  exact hn s (List.mem_flatMap.mpr ⟨p, (List.mem_filter.mp hp).1, hs⟩)

/-- The contributions of a merged group. -/
theorem findingContribution_group {spec : Spec} {results : List ProviderResult}
    (hn : Numeric (severities (observations results))) {key : String} {p₀ : SourcePair}
    {ps : List SourcePair} (hg : groupOf results key = p₀ :: ps) (weights : GoMap Float64) :
    findingContribution spec (buildMergedFinding key p₀ ps "max" weights) =
      conflictContribution spec (reconcileAssessment (groupOf results key)).2 ++
        profileContribution spec (groupProfile p₀.finding.type (groupOf results key)) := by
  have hn' := numeric_groupOf hn key
  rw [hg] at hn' ⊢
  rw [findingContribution, ruleContribution_eq, profileOf_synthetic hn']
  rfl

/-- A rank above the fixed one is reached exactly through a group whose
first carrier brings a type that lifts it there. -/
theorem le_rank_merged_iff (doc : Document) (sub : Submission) {results : List ProviderResult}
    (randHex : String) (now : Time) (env : EvalEnv)
    (hn : Numeric (severities (observations results))) {n : Nat} :
    n ≤ rank (evaluateMergedDoc doc sub results
        (newDefaultAggregator.aggregate randHex now results) env).decision ↔
      n ≤ fixedRank doc.spec results ∨
        Reaches carries (typeRank doc.spec results) results n := by
  rcases Nat.eq_zero_or_pos n with rfl | hpos
  · simp
  have hpos' : ¬ n ≤ rank .allow := by simp only [rank]; omega
  rw [evaluateMergedDoc_decision, fixedRank, le_rank_foldl_escalate, le_rank_foldl_escalate]
  simp only [hpos', false_or, mergedContributions, fixedContributions, List.mem_append,
    or_and_right, exists_or, or_assoc]
  refine or_congr_right (or_congr_right ?_)
  constructor
  · -- a contribution of a merged finding is one of its conflicts or of its rule
    rintro ⟨d, hd, hle⟩
    obtain ⟨mf, hmf, hd⟩ := List.mem_flatMap.mp hd
    obtain ⟨⟨key, pairs⟩, hgroup, hmf⟩ := List.mem_filterMap.mp hmf
    obtain ⟨hpairs, hne⟩ := mem_groupBy.mp hgroup
    cases pairs with
    | nil => exact absurd rfl hne
    | cons p₀ ps =>
      simp only [Option.some.injEq] at hmf
      subst hmf
      have hg : groupOf results key = p₀ :: ps := hpairs.symm
      change d ∈ findingContribution doc.spec (buildMergedFinding key p₀ ps "max" _) at hd
      rw [findingContribution_group hn hg] at hd
      rcases List.mem_append.mp hd with hd | hd
      · refine .inl ⟨d, List.mem_flatMap.mpr ⟨(key, p₀ :: ps), hgroup, ?_⟩, hle⟩
        rwa [hg] at hd
      · right
        have hhead := head?_groupOf results key
        rw [hg, List.head?_cons] at hhead
        obtain ⟨r, hr, hfirst⟩ := Option.bind_eq_some_iff.mp hhead.symm
        refine ⟨key, r, hr, ?_⟩
        simp only [typeRank, hfirst]
        exact le_rank_foldl_escalate.mpr (.inr ⟨d, hd, hle⟩)
  · rintro (⟨d, hd, hle⟩ | ⟨key, r, hr, hle⟩)
    · obtain ⟨⟨key, pairs⟩, hgroup, hd⟩ := List.mem_flatMap.mp hd
      obtain ⟨hpairs, hne⟩ := mem_groupBy.mp hgroup
      cases pairs with
      | nil => exact absurd rfl hne
      | cons p₀ ps =>
        have hg : groupOf results key = p₀ :: ps := hpairs.symm
        refine ⟨d, List.mem_flatMap.mpr ⟨buildMergedFinding key p₀ ps "max" ∅,
          List.mem_filterMap.mpr ⟨(key, p₀ :: ps), hgroup, rfl⟩, ?_⟩, hle⟩
        rw [findingContribution_group hn hg, hg]
        exact List.mem_append_left _ hd
    · simp only [typeRank] at hle
      cases hfirst : firstIn r key with
      | none =>
        simp only [hfirst] at hle
        omega
      | some p =>
        simp only [hfirst] at hle
        obtain h0 | ⟨d, hd, hle⟩ := le_rank_foldl_escalate.mp hle
        · exact absurd h0 hpos'
        have hhead := head?_groupOf results key
        rw [hr, Option.bind_some, hfirst] at hhead
        obtain ⟨ps, hg⟩ := List.head?_eq_some_iff.mp hhead
        refine ⟨d, List.mem_flatMap.mpr ⟨buildMergedFinding key p ps "max" ∅,
          List.mem_filterMap.mpr ⟨(key, p :: ps), mem_groupBy.mpr ⟨hg.symm, by simp⟩, rfl⟩, ?_⟩,
          hle⟩
        rw [findingContribution_group hn hg]
        exact List.mem_append_right _ hd

/-- **When the order of the results cannot change the decision.** For a
valid document and results whose scores are numbers, every permutation
of the results gives the same decision exactly when the types of the
findings are settled. -/
theorem merged_decision_order_iff (d : ValidDocument) (sub : Submission)
    (results : List ProviderResult) (randHex : String) (now : Time) (env : EvalEnv)
    (hn : Numeric (severities (observations results))) :
    (∀ results', results'.Perm results → ∀ randHex' now' env',
      (evaluateMergedDoc d.doc sub results'
        (newDefaultAggregator.aggregate randHex' now' results') env').decision =
      (evaluateMergedDoc d.doc sub results
        (newDefaultAggregator.aggregate randHex now results) env).decision) ↔
      TypeSettled d.doc.spec results := by
  have hn' : ∀ {results'}, results'.Perm results → Numeric (severities (observations results')) :=
    fun h s hs => hn s (((h.flatMap_right _).flatMap_right _).subset hs)
  rw [TypeSettled, ← reaches_perm_iff_settled]
  constructor
  · intro h π hπ n hlt
    have hle := le_rank_merged_iff d.doc sub randHex now env hn (n := n)
    have hle' := le_rank_merged_iff d.doc sub randHex now env (hn' hπ) (n := n)
    rw [h π hπ, hle, fixedRank_perm hπ, typeRank_perm hπ] at hle'
    have hno : ¬ n ≤ fixedRank d.doc.spec results := Nat.not_le.mpr hlt
    simpa only [hno, false_or] using hle'.symm
  · intro h results' hp randHex' now' env'
    refine rank_injective_of_valid (evaluateMergedDoc_valid ..) (evaluateMergedDoc_valid ..) ?_
    have hiff : ∀ n, n ≤ rank (evaluateMergedDoc d.doc sub results'
          (newDefaultAggregator.aggregate randHex' now' results') env').decision ↔
        n ≤ rank (evaluateMergedDoc d.doc sub results
          (newDefaultAggregator.aggregate randHex now results) env).decision := by
      intro n
      rw [le_rank_merged_iff _ _ _ _ _ hn, le_rank_merged_iff _ _ _ _ _ (hn' hp),
        fixedRank_perm hp, typeRank_perm hp]
      by_cases hlt : fixedRank d.doc.spec results < n
      · rw [h results' hp n hlt]
      · simp only [Nat.not_lt.mp hlt, true_or]
    exact Nat.le_antisymm ((hiff _).mp (Nat.le_refl _)) ((hiff _).mpr (Nat.le_refl _))

end Order

/-! ## Two results that disagree on a type -/

/-- A document that denies findings of type `malware`. -/
def denyMalware : Document where
  apiVersion := "scintx.policy/v1"
  kind := "Policy"
  metadata := { id := "default", version := "1" }
  spec :=
    { findings :=
        [{ when := { findingType := "malware" }, decision := "deny", reasonCode := "malware" }] }

/-- A completed result with one finding of the given type, about the same
vulnerability whoever reports it. -/
def reportOf (provider type : String) : ProviderResult where
  id := "res_" ++ provider
  provider := { id := provider }
  execution := { status := .completed }
  verdict := some { value := .fail }
  findings :=
    [{ id := "f_" ++ provider, type := type
       identifiers := [{ scheme := "CVE", value := "CVE-2024-1" }] }]

/-- The decision of `denyMalware` on a list of results. -/
def malwareDecision (results : List ProviderResult) : PolicyDecisionValue :=
  letI := GoStd.plain
  (evaluateMergedDoc denyMalware { id := "sub", status := .running } results
    (newDefaultAggregator.aggregate "m" 0 results)
    { randHex := "d", now := 0, resumeFrom := 0 }).decision

theorem merged_decision_depends_on_order :
    @Document.validate GoStd.plain denyMalware [] = .ok () ∧
    [reportOf "b" "malware", reportOf "a" "vulnerability"].Perm
      [reportOf "a" "vulnerability", reportOf "b" "malware"] ∧
    malwareDecision [reportOf "a" "vulnerability", reportOf "b" "malware"] = .allow ∧
    malwareDecision [reportOf "b" "malware", reportOf "a" "vulnerability"] = .deny :=
  ⟨by decide, List.Perm.swap _ _ _, by decide, by decide⟩

/-- The two reports are not settled: put one or the other first. -/
theorem merged_decision_order_iff_malware :
    letI := GoStd.plain
    ¬ TypeSettled denyMalware.spec
      [reportOf "a" "vulnerability", reportOf "b" "malware"] := by
  let _ := GoStd.plain
  intro hsettled
  have h := (merged_decision_order_iff
    { doc := denyMalware, order := [], visits := by decide, valid := by decide }
    { id := "sub", status := .running }
    [reportOf "a" "vulnerability", reportOf "b" "malware"] "m" 0
    { randHex := "d", now := 0, resumeFrom := 0 }
    (by simp [Numeric, severities, observations, observationsOf, reportOf])).mpr hsettled
    [reportOf "b" "malware", reportOf "a" "vulnerability"] (List.Perm.swap _ _ _) "m" 0
    { randHex := "d", now := 0, resumeFrom := 0 }
  exact absurd h (by decide)

end Scintx.Policy
