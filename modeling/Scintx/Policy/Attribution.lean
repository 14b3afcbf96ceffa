/-
Scintx.Policy.Attribution — which finding a decision on merged findings
names, and whose score it cites.

A reason of `evaluateMergedDoc` about a finding takes its ids from the
FIRST source of the merged finding and its score from the consensus over
all of them. The two agree when the first source itself carries the top
score of its group, and `merged_reasons_attributed_iff` says that this is
the only case.

The top of a group is that of a loop over loops: per scheme and version
the largest score (`KeyTop`), and among these the last one that reaches
the largest (`LastTop`), in order of first appearance.
-/
import Scintx.Orchestrator.AggregateLoop
import Scintx.Orchestrator.Consensus
import Scintx.Policy.MonotoneTheorems

namespace Scintx.Policy

open Scintx.Lib Scintx.Api Scintx.Orchestrator

/-! ## The reasons of an evaluation -/

section Reasons

variable [GoStd]

/-- The reasons phase 1 gives for a result. -/
def executionReasons (spec : Spec) (r : ProviderResult) : List DecisionReason :=
  (executionPhase spec .start r).reasons

/-- The reasons phase 3 gives for a merged finding. -/
def findingReasons (spec : Spec) (mf : MergedFinding) : List DecisionReason :=
  (findingPhase spec .start mf).reasons

omit [GoStd] in
theorem executionPhase_reasons (spec : Spec) (t : Tally) (r : ProviderResult) :
    (executionPhase spec t r).reasons = t.reasons ++ executionReasons spec r := by
  unfold executionReasons executionPhase Tally.unfinished Tally.missingVerdict
  split
  · split
    · rfl
    · exact (List.append_nil _).symm
  · split <;> rfl

omit [GoStd] in
theorem verdictPhase_reasons (spec : Spec) (t : Tally) (r : ProviderResult) :
    (verdictPhase spec t r).reasons = t.reasons := by
  unfold verdictPhase Tally.verdict
  split
  · rfl
  · split
    · rfl
    · split <;> rfl

theorem findingPhase_reasons (spec : Spec) (t : Tally) (mf : MergedFinding) :
    (findingPhase spec t mf).reasons = t.reasons ++ findingReasons spec mf := by
  unfold findingReasons findingPhase
  cases hm : matchFinding spec.findings (primarySource mf).1 (synthetic mf) <;>
    by_cases hc : mf.consensus.conflicts = [] <;>
    simp [hm, hc, Tally.raise, Tally.because, Tally.start]

omit [GoStd] in
/-- A loop whose every round appends reasons appends all of them. -/
theorem foldl_reasons {α : Type} {step : Tally → α → Tally} {reasons : α → List DecisionReason}
    (h : ∀ t x, (step t x).reasons = t.reasons ++ reasons x) (l : List α) (t : Tally) :
    (l.foldl step t).reasons = t.reasons ++ l.flatMap reasons := by
  induction l generalizing t with
  | nil => simp
  | cons x l ih => rw [List.foldl_cons, ih, h, List.flatMap_cons, List.append_assoc]

theorem Tally.record_reasons (doc : Document) (sub : Submission) (env : EvalEnv)
    (inputs : List String) (t : Tally) : (t.record doc sub env inputs).reasons = t.reasons := by
  unfold Tally.record
  split <;> rfl

theorem evaluateMergedDoc_reasons (doc : Document) (sub : Submission)
    (results : List ProviderResult) (merged : MergedResult) (env : EvalEnv) :
    (evaluateMergedDoc doc sub results merged env).reasons =
      results.flatMap (executionReasons doc.spec) ++
        merged.findings.flatMap (findingReasons doc.spec) := by
  have hverdicts : ∀ (l : List ProviderResult) (t : Tally),
      (l.foldl (verdictPhase doc.spec) t).reasons = t.reasons := by
    intro l
    induction l with
    | nil => exact fun _ => rfl
    | cons r l ih => intro t; rw [List.foldl_cons, ih, verdictPhase_reasons]
  unfold evaluateMergedDoc
  rw [Tally.record_reasons, foldl_reasons (findingPhase_reasons doc.spec), hverdicts,
    foldl_reasons (executionPhase_reasons doc.spec)]
  rfl

/-- The first rule a merged finding meets. -/
def firstRule (spec : Spec) (mf : MergedFinding) : Option FindingRule :=
  spec.findings.find? fun rule => whenMatches rule.when (synthetic mf)

/-- A reason about a merged finding: a conflict, or its first rule. -/
theorem mem_findingReasons {spec : Spec} {mf : MergedFinding} {reason : DecisionReason}
    (h : reason ∈ findingReasons spec mf) :
    reason.resultID = (primarySource mf).1 ∧ reason.findingID = (primarySource mf).2 ∧
      (reason.severityRef = none ∨ ∃ rule, firstRule spec mf = some rule ∧
        reason.severityRef =
          (ruleReason rule (primarySource mf).1 (synthetic mf)).severityRef) := by
  unfold findingReasons findingPhase matchFinding at h
  unfold firstRule
  cases hrule : spec.findings.find? fun rule => whenMatches rule.when (synthetic mf) with
  | none =>
    by_cases hc : mf.consensus.conflicts = []
    · simp [hrule, hc, Tally.start] at h
    · simp only [hrule, hc, ne_eq, not_false_eq_true, if_true, Option.map_none, Tally.because,
        Tally.raise, Tally.start, List.nil_append, List.mem_singleton] at h
      subst h
      exact ⟨rfl, rfl, .inl rfl⟩
  | some rule =>
    by_cases hc : mf.consensus.conflicts = []
    · simp only [hrule, hc, ne_eq, not_true_eq_false, if_false, Option.map_some, Tally.because,
        Tally.raise, Tally.start, List.nil_append, List.mem_singleton] at h
      subst h
      exact ⟨rfl, rfl, .inr ⟨rule, rfl, rfl⟩⟩
    · simp only [hrule, hc, ne_eq, not_false_eq_true, if_true, Option.map_some, Tally.because,
        Tally.raise, Tally.start, List.nil_append, List.mem_append, List.mem_singleton] at h
      rcases h with rfl | rfl
      · exact ⟨rfl, rfl, .inl rfl⟩
      · exact ⟨rfl, rfl, .inr ⟨rule, rfl, rfl⟩⟩

/-- The first rule of a merged finding leaves its reason. -/
theorem exists_rule_reason {spec : Spec} {mf : MergedFinding} {rule : FindingRule}
    (h : firstRule spec mf = some rule) :
    ∃ reason ∈ findingReasons spec mf,
      reason.resultID = (primarySource mf).1 ∧ reason.findingID = (primarySource mf).2 ∧
        reason.severityRef = (ruleReason rule (primarySource mf).1 (synthetic mf)).severityRef := by
  refine ⟨{ ruleReason rule (primarySource mf).1 (synthetic mf) with
    findingID := (primarySource mf).2, resultID := (primarySource mf).1 }, ?_, rfl, rfl, rfl⟩
  unfold firstRule at h
  unfold findingReasons findingPhase matchFinding
  simp [h, Tally.because]

/-! ## The observation a reason cites -/

/-- `s` is the LAST observation that reaches the top score `x` for a
scheme: none before it counts for more, none behind it for as much. -/
def LastTop (scheme : String) (obs : List SeverityObservation) (s : SeverityObservation)
    (x : Float64) : Prop :=
  ∃ front back, obs = front ++ s :: back ∧ countedScore scheme s = some x ∧
    (∀ o ∈ front, ∀ y, countedScore scheme o = some y → Float64.le y x = true) ∧
    ∀ o ∈ back, ∀ y, countedScore scheme o = some y → Float64.le x y = false

theorem LastTop.score {scheme : String} {obs : List SeverityObservation}
    {s : SeverityObservation} {x : Float64} (h : LastTop scheme obs s x) : s.score = some x := by
  obtain ⟨-, -, -, hs, -⟩ := h
  exact (countedScore_eq_some.mp hs).2.1

/-- Rounds over smaller scores leave the top as it is. -/
theorem foldl_topRound_below {scheme : String} {st : Float64 × Option SeverityObservation}
    (hst : Float64.le .zero st.1 = true) {obs : List SeverityObservation}
    (h : ∀ o ∈ obs, ∀ y, countedScore scheme o = some y → Float64.le st.1 y = false) :
    obs.foldl (topRound scheme) st = st := by
  induction obs with
  | nil => rfl
  | cons o obs ih =>
    have hround : topRound scheme st o = st := by
      rw [topRound_eq hst]
      cases hc : countedScore scheme o with
      | none => rfl
      | some y => simp [h o (List.mem_cons_self ..) y hc]
    rw [List.foldl_cons, hround]
    exact ih fun o' ho' => h o' (List.mem_cons_of_mem _ ho')

theorem LastTop.foldl_eq {scheme : String} {obs : List SeverityObservation}
    {s : SeverityObservation} {x : Float64} (h : LastTop scheme obs s x) :
    obs.foldl (topRound scheme) (Float64.zero, none) = (x, some s) := by
  obtain ⟨front, back, rfl, hs, hfront, hback⟩ := h
  have hx := (countedScore_eq_some.mp hs).2.2
  have hst := topState_foldl scheme front
  have hle : Float64.le (front.foldl (topRound scheme) (Float64.zero, none)).1 x = true := by
    rcases hst.top with ⟨-, h0⟩ | ⟨hmem, -⟩
    · rw [h0]
      exact hx
    · obtain ⟨o, ho, hy⟩ := List.mem_filterMap.mp hmem
      exact hfront o ho _ hy
  have hround : topRound scheme (front.foldl (topRound scheme) (Float64.zero, none)) s =
      (x, some s) := by
    rw [topRound_eq hst.zero_le, hs]
    exact if_pos hle
  rw [List.foldl_append, List.foldl_cons, hround]
  exact foldl_topRound_below hx hback

theorem lastTop_of_foldl {scheme : String} {s : SeverityObservation} {x : Float64}
    (obs : List SeverityObservation)
    (h : obs.foldl (topRound scheme) (Float64.zero, none) = (x, some s)) :
    LastTop scheme obs s x := by
  induction obs using List.reverseRecOn with
  | nil => cases h
  | append_singleton obs o ih =>
    have hst := topState_foldl scheme obs
    -- a round that leaves the top: `o` joins what is behind it
    have hkeep : (∀ y, countedScore scheme o = some y →
        Float64.le (obs.foldl (topRound scheme) (Float64.zero, none)).1 y = false) →
        obs.foldl (topRound scheme) (Float64.zero, none) = (x, some s) →
          LastTop scheme (obs ++ [o]) s x := by
      intro hbelow heq
      obtain ⟨front, back, hobs, hs, hfront, hback⟩ := ih heq
      refine ⟨front, back ++ [o], by rw [hobs]; simp, hs, hfront, fun o' ho' y hy => ?_⟩
      rcases List.mem_append.mp ho' with ho' | ho'
      · exact hback o' ho' y hy
      · rw [List.mem_singleton.mp ho'] at hy
        have := hbelow y hy
        rwa [heq] at this
    rw [List.foldl_append, List.foldl_cons, List.foldl_nil, topRound_eq hst.zero_le] at h
    cases hc : countedScore scheme o with
    | none =>
      rw [hc] at h
      exact hkeep (fun y hy => by rw [hc] at hy; cases hy) h
    | some y =>
      rw [hc] at h
      by_cases hle : Float64.le (obs.foldl (topRound scheme) (Float64.zero, none)).1 y = true
      · simp only [hle, if_true, Prod.mk.injEq, Option.some.injEq] at h
        obtain ⟨rfl, rfl⟩ := h
        refine ⟨obs, [], rfl, hc, fun o' ho' z hz => ?_, by simp⟩
        exact Float64.le_trans (hst.le_top (List.mem_filterMap.mpr ⟨o', ho', hz⟩)) hle
      · simp only [hle] at h
        exact hkeep (fun z hz => by rw [hc] at hz; cases hz; simpa using hle) h

/-- `topSeverity` picks the last observation that reaches the top. -/
theorem topSeverity_iff {f : Finding} {scheme : String} {s : SeverityObservation} {x : Float64} :
    topSeverity f scheme = (x, some s) ↔ LastTop scheme f.severity s x :=
  ⟨lastTop_of_foldl f.severity, LastTop.foldl_eq⟩

/-- A rule cites the top observation. -/
theorem ruleReason_severityRef {rule : FindingRule} {id : String} {f : Finding}
    {ref : SeverityRef} :
    (ruleReason rule id f).severityRef = some ref ↔
      ∃ s x, LastTop rule.when.severityScheme f.severity s x ∧
        ref = { scheme := s.scheme, version := s.version, score := some x } := by
  constructor
  · intro h
    obtain ⟨s, hs, href⟩ := Option.bind_eq_some_iff.mp h
    obtain ⟨y, hy, rfl⟩ := Option.map_eq_some_iff.mp href
    have htop := topSeverity_iff.mp (Prod.ext rfl hs)
    exact ⟨s, _, htop, by rw [← htop.score, hy]⟩
  · rintro ⟨s, x, htop, rfl⟩
    simp only [ruleReason, topSeverity_iff.mpr htop, Option.bind_some, htop.score,
      Option.map_some]

/-! ## The top of a group -/

/-- A scheme and version whose largest score counts for a rule. -/
def KeyCounts (pairs : List SourcePair) (scheme : String) (key : String × String)
    (x : Float64) : Prop :=
  (scheme ≠ "" → equalFold key.1 scheme = true) ∧ KeyTop pairs key x ∧
    Float64.le .zero x = true

/-- The scheme and version a rule cites for a group, with the score: in
order of first appearance the last one whose largest score is the top. -/
def GroupTop (pairs : List SourcePair) (scheme : String) (key : String × String)
    (x : Float64) : Prop :=
  ∃ front back, keyOrder schemeKeyOf (severities pairs) = front ++ key :: back ∧
    KeyCounts pairs scheme key x ∧
    (∀ k ∈ front, ∀ y, KeyCounts pairs scheme k y → Float64.le y x = true) ∧
    ∀ k ∈ back, ∀ y, KeyCounts pairs scheme k y → Float64.le x y = false

theorem countedScore_mergedObservation {pairs : List SourcePair} {weights : GoMap Float64}
    {scheme : String} {key : String × String} {x : Float64} :
    countedScore scheme (mergedObservation pairs "max" weights key) = some x ↔
      KeyCounts pairs scheme key x := by
  have hkey := schemeKeyOf_mergedObservation pairs "max" weights key
  have hscheme : (mergedObservation pairs "max" weights key).scheme = key.1 :=
    congrArg Prod.fst hkey
  rw [countedScore_eq_some, mergedObservation_max, hscheme]
  rfl

/-- The top of the merged observations is the top of the group. -/
theorem lastTop_computeSeverity {pairs : List SourcePair} {weights : GoMap Float64}
    {scheme : String} {s : SeverityObservation} {x : Float64} :
    LastTop scheme (computeSeverity pairs "max" weights) s x ↔
      ∃ key, s = mergedObservation pairs "max" weights key ∧ GroupTop pairs scheme key x := by
  rw [computeSeverity_eq_map]
  constructor
  · rintro ⟨front, back, hobs, hs, hfront, hback⟩
    obtain ⟨ks, ks', hks, rfl, hrest⟩ := List.map_eq_append_iff.mp hobs
    obtain ⟨key, back', rfl, rfl, rfl⟩ := List.map_eq_cons_iff.mp hrest
    refine ⟨key, rfl, ks, back', hks, countedScore_mergedObservation.mp hs, ?_, ?_⟩
    · exact fun k hk y hy => hfront _ (List.mem_map_of_mem hk) y
        (countedScore_mergedObservation.mpr hy)
    · exact fun k hk y hy => hback _ (List.mem_map_of_mem hk) y
        (countedScore_mergedObservation.mpr hy)
  · rintro ⟨key, rfl, front, back, hkeys, hcounts, hfront, hback⟩
    refine ⟨front.map _, back.map _, by rw [hkeys, List.map_append, List.map_cons],
      countedScore_mergedObservation.mpr hcounts, ?_, ?_⟩
    · intro o ho y hy
      obtain ⟨k, hk, rfl⟩ := List.mem_map.mp ho
      exact hfront k hk y (countedScore_mergedObservation.mp hy)
    · intro o ho y hy
      obtain ⟨k, hk, rfl⟩ := List.mem_map.mp ho
      exact hback k hk y (countedScore_mergedObservation.mp hy)

/-- What a rule cites of a merged finding. -/
theorem ruleReason_merged {rule : FindingRule} {id key : String} {p₀ : SourcePair}
    {ps : List SourcePair} {weights : GoMap Float64} {ref : SeverityRef} :
    (ruleReason rule id
        (synthetic (buildMergedFinding key p₀ ps "max" weights))).severityRef = some ref ↔
      ∃ k x, GroupTop (p₀ :: ps) rule.when.severityScheme k x ∧
        ref = { scheme := k.1, version := k.2, score := some x } := by
  rw [ruleReason_severityRef]
  change (∃ s x, LastTop _ (computeSeverity (p₀ :: ps) "max" weights) s x ∧ _) ↔ _
  simp only [lastTop_computeSeverity]
  constructor
  · rintro ⟨s, x, ⟨k, rfl, hk⟩, rfl⟩
    have hkey := schemeKeyOf_mergedObservation (p₀ :: ps) "max" weights k
    exact ⟨k, x, hk, by rw [← congrArg Prod.fst hkey, ← congrArg Prod.snd hkey]; rfl⟩
  · rintro ⟨k, x, hk, rfl⟩
    have hkey := schemeKeyOf_mergedObservation (p₀ :: ps) "max" weights k
    refine ⟨_, x, ⟨k, rfl, hk⟩, ?_⟩
    rw [← congrArg Prod.fst hkey, ← congrArg Prod.snd hkey]
    rfl

/-- The top score of a group is the score of an observation of it. -/
theorem GroupTop.exists_source {pairs : List SourcePair} {scheme : String}
    {key : String × String} {x : Float64} (h : GroupTop pairs scheme key x) :
    ∃ p ∈ pairs, ∃ o ∈ p.finding.severity, schemeKeyOf o = key ∧ o.score = some x := by
  obtain ⟨-, -, -, ⟨-, ⟨first, rest, hscores, -, hx, -⟩, -⟩, -⟩ := h
  rw [← hscores] at hx
  obtain ⟨o, ho, hscore⟩ := List.mem_filterMap.mp hx
  obtain ⟨ho, hkey⟩ := List.mem_filter.mp ho
  obtain ⟨p, hp, ho⟩ := List.mem_flatMap.mp ho
  exact ⟨p, hp, o, ho, of_decide_eq_true hkey, hscore⟩

/-! ## Attribution -/

/-- The finding carries the score a reference cites. -/
def Carries (f : Finding) (ref : SeverityRef) : Prop :=
  ∃ o ∈ f.severity, o.scheme = ref.scheme ∧ o.version = ref.version ∧ o.score = ref.score

/-- The reason names a finding of the results, which carries what it
cites. -/
def Attributed (results : List ProviderResult) (reason : DecisionReason) : Prop :=
  ∃ r ∈ results, ∃ f ∈ r.findings, r.id = reason.resultID ∧ f.id = reason.findingID ∧
    ∀ ref, reason.severityRef = some ref → Carries f ref

/-- Wherever a rule cites a score for a group, a finding under the ids of
its FIRST source carries that score. -/
def FirstCarriesTop (spec : Spec) (results : List ProviderResult) : Prop :=
  ∀ key p₀ ps, (key, p₀ :: ps) ∈ groupBy SourcePair.key (observations results) →
    ∀ rule, firstRule spec (buildMergedFinding key p₀ ps "max" ∅) = some rule →
      ∀ k x, GroupTop (p₀ :: ps) rule.when.severityScheme k x →
        ∃ r ∈ results, ∃ f ∈ r.findings, r.id = p₀.result.id ∧ f.id = p₀.finding.id ∧
          ∃ o ∈ f.severity, schemeKeyOf o = k ∧ o.score = some x

/-- The merged findings the server hands to the policy: one a group. -/
theorem mem_aggregate_max {randHex : String} {now : Time} {results : List ProviderResult}
    {mf : MergedFinding} :
    mf ∈ (newDefaultAggregator.aggregate randHex now results).findings ↔
      ∃ key p₀ ps, (key, p₀ :: ps) ∈ groupBy SourcePair.key (observations results) ∧
        mf = buildMergedFinding key p₀ ps "max" ∅ := by
  constructor
  · intro h
    obtain ⟨⟨key, pairs⟩, hg, hmf⟩ := List.mem_filterMap.mp h
    cases pairs with
    | nil => cases hmf
    | cons p₀ ps =>
      cases hmf
      exact ⟨key, p₀, ps, hg, rfl⟩
  · rintro ⟨key, p₀, ps, hg, rfl⟩
    exact List.mem_filterMap.mpr ⟨_, hg, rfl⟩

/-- The members of a group are observations under its key. -/
theorem mem_group {key : String} {pairs : List SourcePair} {results : List ProviderResult}
    (h : (key, pairs) ∈ groupBy SourcePair.key (observations results)) {p : SourcePair}
    (hp : p ∈ pairs) : p ∈ observations results ∧ p.key = key := by
  obtain ⟨hpairs, -⟩ := mem_groupBy.mp h
  rw [hpairs] at hp
  obtain ⟨hobs, hkey⟩ := List.mem_filter.mp hp
  exact ⟨hobs, of_decide_eq_true hkey⟩

omit [GoStd] in
theorem mem_observations {results : List ProviderResult} {p : SourcePair}
    (h : p ∈ observations results) : p.result ∈ results ∧ p.finding ∈ p.result.findings := by
  obtain ⟨r, hr, hp⟩ := List.mem_flatMap.mp h
  unfold observationsOf at hp
  split at hp
  · cases hp
  · obtain ⟨f, hf, rfl⟩ := List.mem_map.mp hp
    exact ⟨hr, hf⟩

/-- A reason about a finding names the first source of a group, and what
it cites is the top of that group for the rule that is met. -/
theorem mem_found {spec : Spec} {randHex : String} {now : Time} {results : List ProviderResult}
    {reason : DecisionReason}
    (h : reason ∈ (newDefaultAggregator.aggregate randHex now results).findings.flatMap
      (findingReasons spec)) :
    ∃ key p₀ ps, (key, p₀ :: ps) ∈ groupBy SourcePair.key (observations results) ∧
      p₀.result.id = reason.resultID ∧ p₀.finding.id = reason.findingID ∧
      ∀ ref, reason.severityRef = some ref →
        ∃ rule, firstRule spec (buildMergedFinding key p₀ ps "max" ∅) = some rule ∧
          ∃ k x, GroupTop (p₀ :: ps) rule.when.severityScheme k x ∧
            ref = { scheme := k.1, version := k.2, score := some x } := by
  obtain ⟨mf, hmf, hreason⟩ := List.mem_flatMap.mp h
  obtain ⟨key, p₀, ps, hg, rfl⟩ := mem_aggregate_max.mp hmf
  obtain ⟨hrid, hfid, hcited⟩ := mem_findingReasons hreason
  refine ⟨key, p₀, ps, hg, hrid.symm, hfid.symm, fun ref href => ?_⟩
  obtain ⟨rule, hfirst, hrule⟩ := hcited.resolve_left (by rw [href]; exact Option.some_ne_none _)
  exact ⟨rule, hfirst, ruleReason_merged.mp (hrule.symm.trans href)⟩

/-- A decision on the merged findings of the server lists the reasons of
phase 1, then those about the findings. One about a finding names an
observation of the results, and what it cites is carried by a source of
the same merged finding. It is carried by the finding NAMED, for every
reason, just if the first source of each group carries the top of it. -/
theorem merged_reasons_attributed_iff (d : ValidDocument) (sub : Submission)
    (results : List ProviderResult) (randHex : String) (now : Time) (env : EvalEnv) :
    let merged := newDefaultAggregator.aggregate randHex now results
    let found := merged.findings.flatMap (findingReasons d.doc.spec)
    (evaluateMergedDoc d.doc sub results merged env).reasons =
        results.flatMap (executionReasons d.doc.spec) ++ found ∧
      (∀ reason ∈ found, ∃ p ∈ observations results, ∃ q ∈ observations results,
        p.result.id = reason.resultID ∧ p.finding.id = reason.findingID ∧ q.key = p.key ∧
          ∀ ref, reason.severityRef = some ref → Carries q.finding ref) ∧
      ((∀ reason ∈ found, Attributed results reason) ↔ FirstCarriesTop d.doc.spec results) := by
  intro merged found
  refine ⟨evaluateMergedDoc_reasons .., fun reason hreason => ?_, fun h => ?_, fun h => ?_⟩
  · obtain ⟨key, p₀, ps, hg, hrid, hfid, hcited⟩ := mem_found hreason
    obtain ⟨hp₀, hkey₀⟩ := mem_group hg (List.mem_cons_self ..)
    cases href : reason.severityRef with
    | none => exact ⟨p₀, hp₀, p₀, hp₀, hrid, hfid, rfl, fun _ h => by cases h⟩
    | some ref =>
      obtain ⟨rule, -, k, x, htop, rfl⟩ := hcited ref href
      obtain ⟨q, hq, o, ho, rfl, hscore⟩ := htop.exists_source
      obtain ⟨hqobs, hqkey⟩ := mem_group hg hq
      refine ⟨p₀, hp₀, q, hqobs, hrid, hfid, hqkey.trans hkey₀.symm, ?_⟩
      rintro _ ⟨⟩
      exact ⟨o, ho, rfl, rfl, hscore⟩
  · intro key p₀ ps hg rule hrule k x htop
    obtain ⟨reason, hreason, hrid, hfid, href⟩ := exists_rule_reason hrule
    obtain ⟨r, hr, f, hf, hid, hfindingID, hcarries⟩ := h reason
      (List.mem_flatMap.mpr ⟨_, mem_aggregate_max.mpr ⟨key, p₀, ps, hg, rfl⟩, hreason⟩)
    obtain ⟨o, ho, hscheme, hversion, hscore⟩ := hcarries _
      (href.trans (ruleReason_merged.mpr ⟨k, x, htop, rfl⟩))
    exact ⟨r, hr, f, hf, hid.trans hrid, hfindingID.trans hfid, o, ho,
      Prod.ext hscheme hversion, hscore⟩
  · intro reason hreason
    obtain ⟨key, p₀, ps, hg, hrid, hfid, hcited⟩ := mem_found hreason
    cases href : reason.severityRef with
    | none =>
      obtain ⟨hr, hf⟩ := mem_observations (mem_group hg (List.mem_cons_self ..)).1
      exact ⟨_, hr, _, hf, hrid, hfid, fun _ h => by rw [href] at h; cases h⟩
    | some ref =>
      obtain ⟨rule, hfirst, k, x, htop, rfl⟩ := hcited ref href
      obtain ⟨r, hr, f, hf, hid, hfindingID, o, ho, rfl, hscore⟩ :=
        h key p₀ ps hg rule hfirst k x htop
      refine ⟨r, hr, f, hf, hid.trans hrid, hfindingID.trans hfid, ?_⟩
      intro ref' href'
      cases href.symm.trans href'
      exact ⟨o, ho, rfl, rfl, hscore⟩

end Reasons

/-- Two reports of one vulnerability, scored 5 and then 10: the reason
names the first and cites the score of the second. -/
theorem second_score_cited :
    letI := GoStd.plain
    let results := [scoredReport "a" (some (.fin 5)) (some .affected),
      scoredReport "b" (some (.fin 10)) none]
    let env : EvalEnv := { randHex := "d", now := 0, resumeFrom := 0 }
    @Document.validate GoStd.plain denyCritical [] = .ok () ∧
    (evaluateMergedDoc denyCritical { id := "sub", status := .running } results
        (newDefaultAggregator.aggregate "m" 0 results) env).reasons =
      [{ code := "critical", resultID := "res_a", findingID := "f_a"
         severityRef := some { scheme := "CVSS", version := "", score := some (.fin 10) }
         message := "" }] ∧
    ∀ r ∈ results, r.id = "res_a" → ∀ f ∈ r.findings, ∀ o ∈ f.severity,
      o.score ≠ some (.fin 10) := by
  refine ⟨denyCritical_valid, by decide +kernel, by decide +kernel⟩

end Scintx.Policy
