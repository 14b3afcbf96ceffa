/-
Scintx.Orchestrator.AggregateLoop — the two loops of `Aggregate`
(`internal/scintx/aggregator.go`) as the source has them, and where each
observation ends up.

The first loop fills a map of groups and, beside it, the order in which
the keys came up; the second walks the order and looks every key up
again. `buildMergedFinding` begins with `pairs[0]`, so a key of the order
without a group would be an index out of range: `mergeGroup` is `none`
there. `aggregateLoop_eq` says that this does not happen and that the
loops do what `DefaultAggregator.aggregate` does.

`aggregate_partitions` is about ATTRIBUTION only: which observation is in
which merged finding, and in what order. What a merged finding says of
its group is the subject of other modules.
-/
import Scintx.Orchestrator.Aggregator

namespace Scintx.Orchestrator

open Scintx.Lib Scintx.Api

variable [GoStd]

/-! ## The loops -/

/-- The body of the loop over the results. -/
def collectResult (b : Buckets String SourcePair) (r : ProviderResult) :
    Buckets String SourcePair :=
  if r.execution.status ≠ .completed then b
  else r.findings.foldl (fun b f => b.add SourcePair.key { result := r, finding := f }) b

/-- `buildMergedFinding` on a group as the map has it. -/
def mergeGroup (key : String) (pairs : List SourcePair) (strategy : String)
    (weights : GoMap Float64) : Option MergedFinding :=
  match pairs with
  | [] => none
  | p₀ :: ps => some (buildMergedFinding key p₀ ps strategy weights)

/-- `Aggregate`, loop by loop; `none` is the panic of an empty group. -/
def DefaultAggregator.aggregateLoop (a : DefaultAggregator) (randHex : String) (now : Time)
    (results : List ProviderResult) : Option MergedResult := do
  let b := results.foldl collectResult .empty
  let strategy := if a.strategy = "" then "max" else a.strategy
  let mergedFindings ← b.order.mapM fun key =>
    mergeGroup key ((b.groups.lookup key).getD []) strategy a.providerWeights
  return { id := "mgd_" ++ randHex
           submissionID := submissionIDFrom results
           inputResultIDs := results.map (·.id)
           findings := mergedFindings
           mergedAt := now }

theorem collect_eq (results : List ProviderResult) (b : Buckets String SourcePair) :
    results.foldl collectResult b =
      (observations results).foldl (Buckets.add SourcePair.key) b := by
  induction results generalizing b with
  | nil => rfl
  | cons r results ih =>
    have hround : collectResult b r =
        (observationsOf r).foldl (Buckets.add SourcePair.key) b := by
      unfold collectResult observationsOf
      split
      · rfl
      · rw [List.foldl_map]
    have hcons : observations (r :: results) = observationsOf r ++ observations results :=
      List.flatMap_cons
    rw [List.foldl_cons, ih, hround, hcons, List.foldl_append]

omit [GoStd] in
/-- A step that never fails on the elements of a list can be mapped. -/
theorem mapM_eq_filterMap {α β : Type} {f : α → Option β} {l : List α}
    (h : ∀ x ∈ l, (f x).isSome = true) : l.mapM f = some (l.filterMap f) := by
  induction l with
  | nil => rfl
  | cons x l ih =>
    obtain ⟨y, hy⟩ := Option.isSome_iff_exists.mp (h x (by simp))
    rw [List.mapM_cons, hy, ih fun z hz => h z (by simp [hz])]
    simp [hy]

/-- The loops never meet an empty group. -/
theorem aggregateLoop_eq (a : DefaultAggregator) (randHex : String) (now : Time)
    (results : List ProviderResult) :
    a.aggregateLoop randHex now results = some (a.aggregate randHex now results) := by
  have hgroups := Buckets.collect_groups SourcePair.key (observations results)
  unfold DefaultAggregator.aggregateLoop DefaultAggregator.aggregate
  rw [collect_eq]
  generalize (observations results).foldl (Buckets.add SourcePair.key) .empty = b at hgroups
  have hsome : ∀ key ∈ b.order, (mergeGroup key ((b.groups.lookup key).getD [])
      (if a.strategy = "" then "max" else a.strategy) a.providerWeights).isSome = true := by
    intro key hkey
    have hmem : (key, (b.groups.lookup key).getD []) ∈
        groupBy SourcePair.key (observations results) := by
      rw [← hgroups]
      exact List.mem_map_of_mem hkey
    obtain ⟨-, hne⟩ := mem_groupBy.mp hmem
    cases hpairs : (b.groups.lookup key).getD [] with
    | nil => exact absurd hpairs hne
    | cons p ps => rfl
  simp only [mapM_eq_filterMap hsome, ← hgroups, List.filterMap_map]
  rfl

/-! ## Where an observation ends up -/

/-- All (provider, result, finding) observations of the completed
results. -/
def completedObservations (results : List ProviderResult) : List SourcePair :=
  (results.filter fun r => r.execution.status = .completed).flatMap fun r =>
    r.findings.map fun f => { result := r, finding := f }

omit [GoStd] in
theorem observations_eq (results : List ProviderResult) :
    observations results = completedObservations results := by
  induction results with
  | nil => rfl
  | cons r results ih =>
    unfold observations completedObservations at ih ⊢
    rw [List.flatMap_cons, ih]
    by_cases hr : r.execution.status = .completed
    · simp [observationsOf, hr]
    · simp [observationsOf, hr]

/-- What a merged finding says about where it comes from. -/
def attribution (mf : MergedFinding) : String × List FindingSource × Nat :=
  (mf.correlationKey, mf.sources, mf.consensus.sourceCount)

/-- The attributions of an aggregation: one a group, in the order of the
groups. -/
theorem aggregate_attributions (a : DefaultAggregator) (randHex : String) (now : Time)
    (results : List ProviderResult) :
    (a.aggregate randHex now results).findings.map attribution =
      (keyOrder SourcePair.key (observations results)).map fun k =>
        (k, (withKey SourcePair.key (observations results) k).map SourcePair.source,
          (withKey SourcePair.key (observations results) k).length) := by
  have hgroup : ∀ g ∈ groupBy SourcePair.key (observations results),
      (mergeGroup g.1 g.2 (if a.strategy = "" then "max" else a.strategy)
        a.providerWeights).map attribution = some (g.1, g.2.map SourcePair.source, g.2.length) := by
    intro g hg
    obtain ⟨-, hne⟩ := mem_groupBy.mp hg
    cases hpairs : g.2 with
    | nil => exact absurd hpairs hne
    | cons p ps => rfl
  have hmap : (a.aggregate randHex now results).findings.map attribution =
      (groupBy SourcePair.key (observations results)).map fun g =>
        (g.1, g.2.map SourcePair.source, g.2.length) := by
    have hfilter := List.filterMap_congr hgroup
    rw [← List.map_filterMap] at hfilter
    exact hfilter.trans (congrFun List.filterMap_eq_map _)
  rw [hmap, groupBy_eq, List.map_map]
  rfl

theorem aggregate_keys (a : DefaultAggregator) (randHex : String) (now : Time)
    (results : List ProviderResult) :
    (a.aggregate randHex now results).findings.map (·.correlationKey) =
      keyOrder SourcePair.key (observations results) := by
  have hattr := congrArg (fun l => l.map (·.1)) (aggregate_attributions a randHex now results)
  simp only [List.map_map] at hattr
  simpa [Function.comp_def, attribution] using hattr

theorem aggregate_sources (a : DefaultAggregator) (randHex : String) (now : Time)
    (results : List ProviderResult) :
    (a.aggregate randHex now results).findings.flatMap (·.sources) =
      ((groupBy SourcePair.key (observations results)).flatMap (·.2)).map SourcePair.source := by
  have hattr := congrArg (fun l => l.flatMap fun t => t.2.1)
    (aggregate_attributions a randHex now results)
  simpa only [List.flatMap_map, groupBy_eq, List.map_flatMap, attribution] using hattr

/-- The merged finding at a place is that of the key there. -/
theorem aggregate_getElem? {a : DefaultAggregator} {randHex : String} {now : Time}
    {results : List ProviderResult} {n : Nat} {mf : MergedFinding}
    (h : (a.aggregate randHex now results).findings[n]? = some mf) :
    ∃ k, (keyOrder SourcePair.key (observations results))[n]? = some k ∧
      k = mf.correlationKey ∧
      (withKey SourcePair.key (observations results) k).map SourcePair.source = mf.sources ∧
      (withKey SourcePair.key (observations results) k).length = mf.consensus.sourceCount := by
  have hn := congrArg (·[n]?) (aggregate_attributions a randHex now results)
  simp only [List.getElem?_map, h, Option.map_some] at hn
  obtain ⟨k, hk, hkmf⟩ := Option.map_eq_some_iff.mp hn.symm
  simp only [attribution, Prod.mk.injEq] at hkmf
  exact ⟨k, hk, hkmf⟩

/-- The place of an observation: that of its key among the distinct keys. -/
def placeOf (obs : List SourcePair) (p : SourcePair) : Nat :=
  (keyOrder SourcePair.key obs).idxOf p.key

theorem placeOf_lt {obs : List SourcePair} {p : SourcePair} (hp : p ∈ obs) :
    placeOf obs p < (keyOrder SourcePair.key obs).length :=
  List.idxOf_lt_length_of_mem (mem_keyOrder.mpr ⟨p, hp, rfl⟩)

theorem placeOf_eq_iff {obs : List SourcePair} {p : SourcePair} (hp : p ∈ obs) {n : Nat}
    {k : String} (hk : (keyOrder SourcePair.key obs)[n]? = some k) :
    placeOf obs p = n ↔ p.key = k := by
  have hmem : p.key ∈ keyOrder SourcePair.key obs := mem_keyOrder.mpr ⟨p, hp, rfl⟩
  obtain ⟨hn, rfl⟩ := List.getElem?_eq_some_iff.mp hk
  constructor
  · rintro rfl
    exact (List.getElem_idxOf (placeOf_lt hp)).symm
  · intro h
    rw [placeOf, h]
    exact (nodup_keyOrder SourcePair.key obs).idxOf_getElem n hn

theorem placeOf_inj {obs : List SourcePair} {p q : SourcePair} (hp : p ∈ obs) :
    placeOf obs p = placeOf obs q ↔ p.key = q.key :=
  List.idxOf_inj (mem_keyOrder.mpr ⟨p, hp, rfl⟩)

/-- The observation that opens a place: all before it have earlier ones. -/
theorem exists_first_at {obs : List SourcePair} {n : Nat} {k : String}
    (hk : (keyOrder SourcePair.key obs)[n]? = some k) :
    ∃ front p rest, obs = front ++ p :: rest ∧ placeOf obs p = n ∧
      ∀ q ∈ front, placeOf obs q < n := by
  obtain ⟨front, p, rest, hsplit, hpk, htake⟩ := keyOrder_split hk
  refine ⟨front, p, rest, hsplit, (placeOf_eq_iff (by simp [hsplit]) hk).mpr hpk, fun q hq => ?_⟩
  -- the key of `q` is among the first `n` keys
  have hmem : q.key ∈ (keyOrder SourcePair.key obs).take n := by
    rw [← htake]
    exact mem_keyOrder.mpr ⟨q, hq, rfl⟩
  exact (List.mem_take_iff_idxOf_lt (List.mem_of_mem_take hmem)).mp hmem

/-- **`Aggregate` partitions the observations.** It returns; every
observation of a completed result is a source of exactly one merged
finding, the one at its place, and two observations have the same place
if and only if they have the same key. The places are taken in the order
of first observation. -/
theorem aggregate_partitions (a : DefaultAggregator) (randHex : String) (now : Time)
    (results : List ProviderResult) :
    ∃ merged, a.aggregateLoop randHex now results = some merged ∧
      merged.inputResultIDs = results.map (·.id) ∧
      (merged.findings.flatMap (·.sources)).Perm
        ((completedObservations results).map SourcePair.source) ∧
      (merged.findings.map (·.correlationKey)).Nodup ∧
      ∃ place : SourcePair → Nat,
        (∀ p ∈ completedObservations results, place p < merged.findings.length) ∧
        (∀ p ∈ completedObservations results, ∀ q ∈ completedObservations results,
          place p = place q ↔ p.key = q.key) ∧
        ∀ n mf, merged.findings[n]? = some mf →
          mf.sources = ((completedObservations results).filter fun p => place p = n).map
            SourcePair.source ∧
          mf.consensus.sourceCount = mf.sources.length ∧
          (∀ p ∈ completedObservations results, place p = n → p.key = mf.correlationKey) ∧
          ∃ front p rest, completedObservations results = front ++ p :: rest ∧ place p = n ∧
            ∀ q ∈ front, place q < n := by
  rw [← observations_eq]
  refine ⟨_, aggregateLoop_eq a randHex now results, rfl, ?_, ?_, placeOf (observations results),
    fun p hp => ?_, fun p hp q _ => placeOf_inj hp, fun n mf hmf => ?_⟩
  · rw [aggregate_sources]
    exact (groupBy_perm _ _).map _
  · rw [aggregate_keys]
    exact nodup_keyOrder _ _
  · have hlen := congrArg List.length (aggregate_keys a randHex now results)
    rw [List.length_map] at hlen
    rw [hlen]
    exact placeOf_lt hp
  · obtain ⟨k, hk, hkey, hsources, hcount⟩ := aggregate_getElem? hmf
    refine ⟨?_, ?_, fun p hp h => ?_, exists_first_at hk⟩
    · rw [← hsources, withKey]
      refine congrArg _ (List.filter_congr fun p hp => ?_)
      rw [decide_eq_decide, placeOf_eq_iff hp hk]
    · rw [← hsources, ← hcount, List.length_map]
    · rw [← hkey]
      exact (placeOf_eq_iff hp hk).mp h

end Scintx.Orchestrator
