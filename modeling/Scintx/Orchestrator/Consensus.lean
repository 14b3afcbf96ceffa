/-
Scintx.Orchestrator.Consensus — the two consensus values of a merged
finding against its sources: who disagrees with the reconciled
assessment, and where the merged score lies.

`reconcileAssessment` documents `Conflicts` as the sources that disagree
with the outcome. It collects only `not_affected` ones, and only when one
source is affected: `conflicts_eq`. Everything about conflicts follows
from that equation and `reconcileAssessment_spec`.

A merged score is the largest one under `max`. An average is rounded, so
it may lie outside the scores it is made of, but only by `slack`; and
under `trust_weighted` it is 0 when there is no weight to divide by.
-/
import Scintx.Lib.Average
import Scintx.Orchestrator.AggregatorTheorems

namespace Scintx.Orchestrator

open Scintx.Lib Scintx.Api

/-! ## Who disagrees -/

/-- The status a source carries, if it carries an assessment. -/
def SourcePair.status (p : SourcePair) : Option AssessmentStatus :=
  p.finding.assessment.map (·.status)

/-- The result ids of the sources with a status that passes `q`, one for
each source. -/
def idsWhere (q : AssessmentStatus → Bool) (pairs : List SourcePair) : List String :=
  (pairs.filter fun p => p.status.any q).map (·.result.id)

theorem mem_idsWhere {q : AssessmentStatus → Bool} {pairs : List SourcePair} {id : String} :
    id ∈ idsWhere q pairs ↔ ∃ p ∈ pairs, p.result.id = id ∧ ∃ st, p.status = some st ∧ q st := by
  simp only [idsWhere, List.mem_map, List.mem_filter, Option.any_eq_true, and_assoc]
  constructor
  · rintro ⟨p, hp, hst, hid⟩
    exact ⟨p, hp, hid, hst⟩
  · rintro ⟨p, hp, hid, hst⟩
    exact ⟨p, hp, hst, hid⟩

theorem mem_statuses {pairs : List SourcePair} {st : AssessmentStatus} :
    st ∈ statuses pairs ↔ ∃ p ∈ pairs, p.status = some st := by
  simp only [statuses, SourcePair.status, List.mem_filterMap]

theorem idsWhere_eq_map (q : AssessmentStatus → Bool) (pairs : List SourcePair) :
    ((pairs.filterMap fun p => p.finding.assessment.map fun a => (p.result.id, a.status)).filter
      fun o => q o.2).map (·.1) = idsWhere q pairs := by
  induction pairs with
  | nil => rfl
  | cons p pairs ih =>
    simp only [idsWhere, SourcePair.status] at ih ⊢
    cases ha : p.finding.assessment with
    | none => simp [ha, ih]
    | some a => cases hq : q a.status <;> simp [ha, hq, ih]

/-- What `Conflicts` holds. -/
theorem conflicts_eq (pairs : List SourcePair) :
    (reconcileAssessment pairs).2 =
      if .affected ∈ statuses pairs then idsWhere (· = .notAffected) pairs else [] := by
  by_cases ha : .affected ∈ statuses pairs
  · rw [if_pos ha, ← idsWhere_eq_map]
    rw [statuses_eq_map] at ha
    unfold reconcileAssessment
    generalize pairs.filterMap
      (fun p => p.finding.assessment.map fun a => (p.result.id, a.status)) = obs at ha ⊢
    obtain ⟨o, ho, hoa⟩ := List.mem_map.mp ha
    have hany : (obs.any fun o => decide (o.2 = .affected)) = true :=
      List.any_eq_true.mpr ⟨o, ho, by simpa using hoa⟩
    have hall : (obs.all fun o => decide (o.2 = .notAffected)) = false := by
      rw [Bool.eq_false_iff, ne_eq, List.all_eq_true]
      intro h
      have := h o ho
      rw [hoa] at this
      simp at this
    simp [List.ne_nil_of_mem ho, hany, hall]
  · rw [if_neg ha]
    by_contra hne
    exact ha ((reconcileAssessment_spec pairs).2.mp hne).1

/-- The reconciled status. -/
def consensusStatus (pairs : List SourcePair) : Option AssessmentStatus :=
  (reconcileAssessment pairs).1.map (·.status)

/-- Where the conflicts are all the disagreement there is: beside an
affected source, each source with another status than `not_affected` has
the result id of a source with that one; without an affected source, all
statuses are `under_investigation` or all are `not_affected`. -/
def ConflictsCover (pairs : List SourcePair) : Prop :=
  if .affected ∈ statuses pairs then
    ∀ p ∈ pairs, ∀ st, p.status = some st → st ≠ .affected →
      p.result.id ∈ idsWhere (· = .notAffected) pairs
  else (∀ st ∈ statuses pairs, st = .underInvestigation) ∨
    (∀ st ∈ statuses pairs, st = .notAffected)

/-- The same for each source by itself. -/
def ConflictsMatch (pairs : List SourcePair) : Prop :=
  if .affected ∈ statuses pairs then ∀ st ∈ statuses pairs, st = .affected ∨ st = .notAffected
  else (∀ st ∈ statuses pairs, st = .underInvestigation) ∨
    (∀ st ∈ statuses pairs, st = .notAffected)

/-- Without an affected source the outcome is everyone's status only if
it is `under_investigation` or `not_affected`. -/
theorem unanimous_iff {sts : List AssessmentStatus} (ha : .affected ∉ sts) :
    (∀ st ∈ sts, reconciledStatus sts = some st) ↔
      (∀ st ∈ sts, st = .underInvestigation) ∨ (∀ st ∈ sts, st = .notAffected) := by
  unfold reconciledStatus
  by_cases hnil : sts = []
  · simp [hnil]
  rw [if_neg hnil, if_neg ha]
  by_cases hu : .underInvestigation ∈ sts
  · rw [if_pos hu]
    constructor
    · intro h
      exact .inl fun st hst => (Option.some.inj (h st hst)).symm
    · rintro (h | h) st hst
      · rw [h st hst]
      · cases h _ hu
  · rw [if_neg hu]
    obtain ⟨st₀, hst₀⟩ := List.exists_mem_of_ne_nil sts hnil
    by_cases hall : ∀ st ∈ sts, st = .notAffected
    · rw [if_pos hall]
      exact ⟨fun _ => .inr hall, fun _ st hst => by rw [hall st hst]⟩
    · rw [if_neg hall]
      constructor
      · intro h
        have h₀ := Option.some.inj (h st₀ hst₀)
        exact absurd (h₀ ▸ hst₀) hu
      · rintro (h | h)
        · exact absurd (h st₀ hst₀ ▸ hst₀) hu
        · exact absurd h hall

/-- A source whose status is not that of the outcome. -/
def Disagrees (pairs : List SourcePair) (p : SourcePair) : Prop :=
  ∃ st, p.status = some st ∧ consensusStatus pairs ≠ some st

theorem consensusStatus_of_affected {pairs : List SourcePair} (ha : .affected ∈ statuses pairs) :
    consensusStatus pairs = some .affected := by
  rw [consensusStatus, (reconcileAssessment_spec pairs).1, reconciledStatus_of_affected ha]

theorem not_disagrees_iff {pairs : List SourcePair} (ha : .affected ∉ statuses pairs) :
    (∀ p ∈ pairs, ¬ Disagrees pairs p) ↔
      (∀ st ∈ statuses pairs, st = .underInvestigation) ∨
        (∀ st ∈ statuses pairs, st = .notAffected) := by
  have hout : consensusStatus pairs = reconciledStatus (statuses pairs) :=
    (reconcileAssessment_spec pairs).1
  rw [← unanimous_iff ha, ← hout]
  constructor
  · intro h st hst
    obtain ⟨p, hp, hps⟩ := mem_statuses.mp hst
    exact not_not.mp fun hne => h p hp ⟨st, hps, hne⟩
  · rintro h p hp ⟨st, hps, hne⟩
    exact hne (h st (mem_statuses.mpr ⟨p, hp, hps⟩))

/-- The conflicts name the sources that disagree. -/
def NamesDisagreeing (pairs : List SourcePair) : Prop :=
  ∀ id, id ∈ (reconcileAssessment pairs).2 ↔ ∃ p ∈ pairs, p.result.id = id ∧ Disagrees pairs p

theorem namesDisagreeing_iff (pairs : List SourcePair) :
    NamesDisagreeing pairs ↔ ConflictsCover pairs := by
  unfold NamesDisagreeing ConflictsCover
  rw [conflicts_eq]
  by_cases ha : .affected ∈ statuses pairs
  · simp only [if_pos ha, Disagrees, consensusStatus_of_affected ha, ne_eq, Option.some.injEq]
    constructor
    · intro h p hp st hps hne
      exact (h _).mpr ⟨p, hp, rfl, st, hps, fun heq => hne heq.symm⟩
    · intro h id
      constructor
      · intro hid
        obtain ⟨p, hp, hpid, st, hps, hst⟩ := mem_idsWhere.mp hid
        have hst : st = .notAffected := by simpa using hst
        exact ⟨p, hp, hpid, st, hps, by rw [hst]; decide⟩
      · rintro ⟨p, hp, rfl, st, hps, hne⟩
        exact h p hp st hps fun heq => hne heq.symm
  · simp only [if_neg ha, List.not_mem_nil, false_iff]
    rw [← not_disagrees_iff ha]
    constructor
    · intro h p hp hdis
      exact h _ ⟨p, hp, rfl, hdis⟩
    · rintro h id ⟨p, hp, -, hdis⟩
      exact h p hp hdis

/-- A narrower test picks the same sources only if it is no narrower on
the statuses that occur. -/
theorem idsWhere_eq_iff {q q' : AssessmentStatus → Bool} (hq : ∀ st, q st = true → q' st = true)
    (pairs : List SourcePair) :
    idsWhere q pairs = idsWhere q' pairs ↔ ∀ st ∈ statuses pairs, q' st = true → q st = true := by
  have hsub : (pairs.filter fun p => p.status.any q).Sublist
      (pairs.filter fun p => p.status.any q') := by
    refine List.monotone_filter_right pairs ?_
    intro p hp
    obtain ⟨st, hst, hqst⟩ := (Option.any_eq_true _ _).mp hp
    exact (Option.any_eq_true _ _).mpr ⟨st, hst, hq st hqst⟩
  constructor
  · intro h st hst hq'
    have hlen := congrArg List.length h
    simp only [idsWhere, List.length_map] at hlen
    obtain ⟨p, hp, hps⟩ := mem_statuses.mp hst
    have hp' : p ∈ pairs.filter fun p => p.status.any q' :=
      List.mem_filter.mpr ⟨hp, by simpa [hps] using hq'⟩
    rw [← hsub.eq_of_length hlen, List.mem_filter] at hp'
    simpa [hps] using hp'.2
  · intro h
    unfold idsWhere
    congr 1
    refine List.filter_congr fun p hp => ?_
    cases hps : p.status with
    | none => rfl
    | some st =>
      have hst := h st (mem_statuses.mpr ⟨p, hp, hps⟩)
      exact Bool.eq_iff_iff.mpr ⟨hq st, hst⟩

theorem conflicts_listed_iff (pairs : List SourcePair) :
    (reconcileAssessment pairs).2 = idsWhere (fun st => consensusStatus pairs ≠ some st) pairs ↔
      ConflictsMatch pairs := by
  unfold ConflictsMatch
  rw [conflicts_eq]
  by_cases ha : .affected ∈ statuses pairs
  · rw [if_pos ha, if_pos ha, consensusStatus_of_affected ha, idsWhere_eq_iff]
    · refine forall₂_congr fun st _ => ?_
      simp only [ne_eq, Option.some.injEq, decide_eq_true_eq, eq_comm (b := st),
        or_iff_not_imp_left]
    · intro st hst
      rw [of_decide_eq_true hst]
      decide
  · rw [if_neg ha, if_neg ha, ← not_disagrees_iff ha, eq_comm, List.eq_nil_iff_forall_not_mem]
    simp only [mem_idsWhere, decide_eq_true_eq]
    constructor
    · intro h p hp hdis
      exact h _ ⟨p, hp, rfl, hdis⟩
    · rintro h id ⟨p, hp, -, hdis⟩
      exact h p hp hdis

/-- `Conflicts` and the sources that disagree with the outcome: as a set
of result ids they are the same exactly if `ConflictsCover`, as lists exactly if
`ConflictsMatch`. -/
theorem conflicts_exact_iff (pairs : List SourcePair) :
    ((∀ id, id ∈ (reconcileAssessment pairs).2 ↔
          ∃ p ∈ pairs, p.result.id = id ∧ Disagrees pairs p) ∧
        (∀ st ∈ statuses pairs, (∀ st' ∈ statuses pairs, st' = st) →
          consensusStatus pairs = some st ∧ (reconcileAssessment pairs).2 = []) ∧
        ((∃ st ∈ statuses pairs, ∃ st' ∈ statuses pairs, st ≠ st') →
          (reconcileAssessment pairs).2 ≠ []) ↔
      ConflictsCover pairs) ∧
    ((reconcileAssessment pairs).2 = idsWhere (fun st => consensusStatus pairs ≠ some st) pairs ↔
      ConflictsMatch pairs) := by
  refine ⟨?_, conflicts_listed_iff pairs⟩
  rw [← namesDisagreeing_iff]
  refine ⟨fun h => h.1, fun h => ⟨h, ?_, ?_⟩⟩
  · intro st hst hagree
    -- an outcome other than the one status would make its source a conflict
    have hout : consensusStatus pairs = some st := by
      by_contra hne
      obtain ⟨p, hp, hps⟩ := mem_statuses.mp hst
      have hmem := (h _).mpr ⟨p, hp, rfl, st, hps, hne⟩
      have hboth := (reconcileAssessment_spec pairs).2.mp (List.ne_nil_of_mem hmem)
      have h₁ := hagree _ hboth.1
      have h₂ := hagree _ hboth.2
      rw [← h₂] at h₁
      cases h₁
    refine ⟨hout, List.eq_nil_iff_forall_not_mem.mpr fun id hid => ?_⟩
    obtain ⟨p, hp, -, st', hps, hne⟩ := (h id).mp hid
    exact hne (by rw [hout, hagree st' (mem_statuses.mpr ⟨p, hp, hps⟩)])
  · rintro ⟨st, hst, st', hst', hne⟩ hnil
    have hall : ∀ x ∈ statuses pairs, consensusStatus pairs = some x := by
      intro x hx
      by_contra hxne
      obtain ⟨p, hp, hps⟩ := mem_statuses.mp hx
      have hmem := (h _).mpr ⟨p, hp, rfl, x, hps, hxne⟩
      rw [hnil] at hmem
      cases hmem
    exact hne (Option.some.inj ((hall st hst).symm.trans (hall st' hst')))

/-- A source of result `id` with an assessment. -/
def assessedSource (id : String) (st : AssessmentStatus) : SourcePair :=
  { result := { id := id, execution := { status := .completed } }
    finding := { id := "f", type := "vulnerability", assessment := some { status := st } } }

/-- An affected and a fixed source: no conflict is recorded. Two fixed
sources: the outcome is neither's status. -/
theorem fixed_sources_no_conflict :
    (reconcileAssessment [assessedSource "r1" .affected, assessedSource "r2" .fixed]).2 = [] ∧
    consensusStatus [assessedSource "r1" .affected, assessedSource "r2" .fixed] = some .affected ∧
    consensusStatus [assessedSource "r1" .fixed, assessedSource "r2" .fixed] =
      some .underInvestigation ∧
    (reconcileAssessment [assessedSource "r1" .fixed, assessedSource "r2" .fixed]).2 = [] := by
  decide

/-! ## Where a merged score lies -/

/-- The scheme and version of an observation. -/
def schemeKeyOf (s : SeverityObservation) : String × String :=
  (s.scheme, s.version)

/-- The scores of a scheme and version in a group, each with the trust
weight of its source. -/
def keyScored (pairs : List SourcePair) (weights : GoMap Float64) (key : String × String) :
    List (Float64 × Float64) :=
  pairs.flatMap fun p =>
    (p.finding.severity.filter fun s => schemeKeyOf s = key).filterMap fun s =>
      s.score.map fun x => (x, (weights.lookup p.result.provider.id).getD Float64.one)

/-- The merged observation of a scheme and version. -/
def mergedObservation (pairs : List SourcePair) (strategy : String) (weights : GoMap Float64)
    (key : String × String) : SeverityObservation :=
  match withKey ScoredObservation.schemeKey (pairs.flatMap (weighted weights)) key with
  | [] => { scheme := key.1, version := key.2 }
  | e₀ :: es =>
    { mergeSchemeObservations e₀ es strategy with scheme := key.1, version := key.2 }

theorem schemeKeyOf_mergedObservation (pairs : List SourcePair) (strategy : String)
    (weights : GoMap Float64) (key : String × String) :
    schemeKeyOf (mergedObservation pairs strategy weights key) = key := by
  unfold mergedObservation
  split <;> rfl

/-- The entries of a scheme and version that occurs. -/
theorem exists_entries {pairs : List SourcePair} (weights : GoMap Float64)
    {key : String × String} (h : key ∈ keyOrder schemeKeyOf (severities pairs)) :
    ∃ e₀ es, withKey ScoredObservation.schemeKey (pairs.flatMap (weighted weights)) key =
      e₀ :: es := by
  obtain ⟨s, hs, rfl⟩ := mem_keyOrder.mp h
  obtain ⟨e, he, rfl⟩ := exists_weighted weights hs
  refine List.exists_cons_of_ne_nil (List.ne_nil_of_mem (a := e) ?_)
  exact List.mem_filter.mpr ⟨he, decide_eq_true rfl⟩

/-- The merged observations, in order of first appearance. -/
theorem computeSeverity_eq_map (pairs : List SourcePair) (strategy : String)
    (weights : GoMap Float64) :
    computeSeverity pairs strategy weights =
      (keyOrder schemeKeyOf (severities pairs)).map (mergedObservation pairs strategy weights) := by
  have hkeys : keyOrder ScoredObservation.schemeKey (pairs.flatMap (weighted weights)) =
      keyOrder schemeKeyOf (severities pairs) := by
    simp only [keyOrder, severities, List.map_flatMap, weighted, List.map_map]
    rfl
  rw [computeSeverity, groupBy_eq, hkeys, List.filterMap_map,
    ← congrFun List.filterMap_eq_map (keyOrder schemeKeyOf (severities pairs))]
  refine List.filterMap_congr fun k hk => ?_
  obtain ⟨e₀, es, hes⟩ := exists_entries weights hk
  simp only [Function.comp_apply, mergedObservation, hes]

/-- They are one for each scheme and version. -/
theorem computeSeverity_eq (pairs : List SourcePair) (strategy : String)
    (weights : GoMap Float64) :
    (computeSeverity pairs strategy weights).map schemeKeyOf =
      keyOrder schemeKeyOf (severities pairs) := by
  rw [computeSeverity_eq_map, List.map_map]
  refine (List.map_congr_left fun k _ => ?_).trans (List.map_id _)
  exact schemeKeyOf_mergedObservation pairs strategy weights k

/-- The scores and weights of entries. -/
def entryScored (es : List ScoredObservation) : List (Float64 × Float64) :=
  es.filterMap fun e => e.obs.score.map fun x => (x, e.weight)

theorem mem_entryScored {es : List ScoredObservation} {x : Float64 × Float64} :
    x ∈ entryScored es ↔ ∃ e ∈ es, e.obs.score = some x.1 ∧ e.weight = x.2 := by
  simp only [entryScored, List.mem_filterMap, Option.map_eq_some_iff]
  constructor
  · rintro ⟨e, he, y, hy, rfl⟩
    exact ⟨e, he, hy, rfl⟩
  · rintro ⟨e, he, hx, hw⟩
    exact ⟨e, he, x.1, hx, by rw [hw]⟩

theorem keyScored_eq (pairs : List SourcePair) (weights : GoMap Float64)
    (key : String × String) :
    keyScored pairs weights key =
      entryScored (withKey ScoredObservation.schemeKey (pairs.flatMap (weighted weights)) key) := by
  simp only [keyScored, entryScored, withKey, List.filter_flatMap, List.filterMap_flatMap, weighted,
    List.filter_map, List.filterMap_map]
  rfl

/-- The score of `mean`. -/
def meanScore (l : List (Float64 × Float64)) : Float64 :=
  (l.foldl (fun s e => s.add e.1) Float64.zero).div (Float64.ofNat l.length)

/-- The score of `trust_weighted`. -/
def trustScore (l : List (Float64 × Float64)) : Float64 :=
  let weightSum := l.foldl (fun s e => s.add e.2) Float64.zero
  let wScore := l.foldl (fun s e => s.add (e.1.mul e.2)) Float64.zero
  if Float64.lt .zero weightSum then wScore.div weightSum else .zero

/-- The sum of finite weights. -/
def totalWeight (l : List (Float64 × Float64)) : ℚ := (l.map fun e => e.2.toRat).sum

/-- The merged score `y` of scores with their weights, by strategy. `M` is
any bound of the scores. -/
structure MergedScore (strategy : String) (l : List (Float64 × Float64)) (y : Float64) :
    Prop where
  max : strategy ≠ "mean" → strategy ≠ "trust_weighted" →
    y ∈ l.map (·.1) ∧ ∀ e ∈ l, Float64.le e.1 y = true
  mean : strategy = "mean" → ∀ M, (∀ e ∈ l, |e.1.toRat| ≤ M) →
    Float64.InRange l.length M l.length →
    Float64.Within (Float64.slack l.length M l.length) (l.map (·.1)) y
  trust : strategy = "trust_weighted" → (∀ e ∈ l, e.2.isFinite = true) →
    ∀ M, (∀ e ∈ l, |e.1.toRat| ≤ M) → Float64.InRange l.length M (totalWeight l) →
    Float64.Within (Float64.slack l.length M (totalWeight l)) (l.map (·.1)) y
  zero : strategy = "trust_weighted" → (∀ e ∈ l, e.2 = .zero) → y = .zero
  nan : strategy = "trust_weighted" → (∃ e ∈ l, e.2.isFinite = false) → y = .nan

section Merge

variable {l : List (Float64 × Float64)}

/-- An infinite weight leaves infinity over infinity. -/
theorem trustScore_eq_nan (hs : ∀ e ∈ l, e.1.isFinite = true)
    (hw : ∀ e ∈ l, Float64.le .zero e.2 = true) (hinf : ∃ e ∈ l, e.2.isFinite = false) :
    trustScore l = .nan := by
  obtain ⟨e, he, hf⟩ := hinf
  have hsum : (l.foldl (fun s e => s.add e.2) Float64.zero).isFinite = false := by
    rw [Bool.eq_false_iff]
    intro hfin
    exact absurd ((Float64.isFinite_of_foldl_add hfin).2 e he) (by simp [hf])
  have hscore : (l.foldl (fun s e => s.add (e.1.mul e.2)) Float64.zero).isFinite = false := by
    rw [Bool.eq_false_iff]
    intro hfin
    have hprod := (Float64.isFinite_of_foldl_add hfin).2 e he
    exact absurd (Float64.isFinite_of_mul (hs e he) hprod) (by simp [hf])
  have hpos := Float64.lt_zero_of_not_isFinite
    (Float64.nonneg_foldl_add hw (Float64.le_refl (by decide))) hsum
  rw [trustScore, if_pos hpos, Float64.div_eq_nan hscore hsum]

theorem mergedScore_mean (hne : l ≠ []) (hs : ∀ e ∈ l, e.1.isFinite = true) :
    MergedScore "mean" l (meanScore l) where
  max h := absurd rfl h
  mean _ _ hM hrange := Float64.within_mean hne hs hM hrange
  trust h := absurd h (by decide)
  zero h := absurd h (by decide)
  nan h := absurd h (by decide)

theorem mergedScore_trust (hne : l ≠ []) (hs : ∀ e ∈ l, e.1.isFinite = true)
    (hw : ∀ e ∈ l, Float64.le .zero e.2 = true) :
    MergedScore "trust_weighted" l (trustScore l) where
  max _ h := absurd rfl h
  mean h := absurd h (by decide)
  trust _ hfin M hM hrange := by
    obtain ⟨hpos, hwithin⟩ := Float64.within_weighted hne hs hw hfin hM hrange
    rw [trustScore, if_pos hpos]
    exact hwithin
  zero _ h := by
    have hsum : l.foldl (fun s e => s.add e.2) Float64.zero = .zero := Float64.foldl_add_zero h
    rw [trustScore, hsum]
    rfl
  nan _ h := trustScore_eq_nan hs hw h

end Merge

section Entries

variable {e₀ : ScoredObservation} {es : List ScoredObservation} {strategy : String}

theorem mergedScore_max (hmean : strategy ≠ "mean") (htrust : strategy ≠ "trust_weighted")
    (hs : ∀ e ∈ entryScored (e₀ :: es), e.1.isFinite = true)
    (hne : entryScored (e₀ :: es) ≠ []) :
    ∃ y, (mergeSchemeObservations e₀ es strategy).score = some y ∧
      MergedScore strategy (entryScored (e₀ :: es)) y := by
  obtain ⟨e, he, hmerge, hbound⟩ := mergeSchemeObservations_max strategy hmean htrust
    fun e he hnan => by cases hs (.nan, e.weight) (mem_entryScored.mpr ⟨e, he, hnan, rfl⟩)
  obtain ⟨x₀, hx₀⟩ := List.exists_mem_of_ne_nil _ hne
  obtain ⟨e', he', hscore, -⟩ := mem_entryScored.mp hx₀
  obtain ⟨y, hy, -⟩ := hbound e' he' _ hscore
  have htop : ∀ x ∈ entryScored (e₀ :: es), Float64.le x.1 y = true := by
    intro x hx
    obtain ⟨e'', he'', hx, -⟩ := mem_entryScored.mp hx
    obtain ⟨y', hy', hle⟩ := hbound e'' he'' x.1 hx
    rw [hy] at hy'
    rwa [Option.some.inj hy']
  have hmem : (y, e.weight) ∈ entryScored (e₀ :: es) := mem_entryScored.mpr ⟨e, he, hy, rfl⟩
  exact ⟨y, by rw [hmerge, hy], fun _ _ => ⟨List.mem_map.mpr ⟨_, hmem, rfl⟩, htop⟩,
    fun h => absurd h hmean, fun h => absurd h htrust, fun h => absurd h htrust,
    fun h => absurd h htrust⟩

theorem mergeSchemeObservations_score
    (hs : ∀ e ∈ entryScored (e₀ :: es), e.1.isFinite = true)
    (hw : ∀ e ∈ entryScored (e₀ :: es), Float64.le .zero e.2 = true)
    (hne : entryScored (e₀ :: es) ≠ []) :
    ∃ y, (mergeSchemeObservations e₀ es strategy).score = some y ∧
      MergedScore strategy (entryScored (e₀ :: es)) y := by
  by_cases hmax : strategy ≠ "mean" ∧ strategy ≠ "trust_weighted"
  · exact mergedScore_max hmax.1 hmax.2 hs hne
  -- an average, over the entries that have a score
  have hentries : entryScored (e₀ :: es) =
      ((e₀ :: es).filterMap fun e => e.obs.score.map fun x => (e, x)).map
        fun p => (p.2, p.1.weight) := by
    simp only [entryScored, List.map_filterMap, Option.map_map]
    rfl
  rw [hentries] at hs hw hne ⊢
  unfold mergeSchemeObservations
  generalize (e₀ :: es).filterMap (fun e => e.obs.score.map fun x => (e, x)) = scored
    at hs hw hne ⊢
  cases scored with
  | nil => exact absurd rfl hne
  | cons first rest =>
    by_cases hmean : strategy = "mean"
    · subst hmean
      refine ⟨_, ?_, mergedScore_mean hne hs⟩
      rw [meanScore, List.foldl_map, List.length_map]
      rfl
    · obtain rfl : strategy = "trust_weighted" :=
        not_not.mp fun htrust => hmax ⟨hmean, htrust⟩
      refine ⟨_, ?_, mergedScore_trust hne hs hw⟩
      rw [trustScore, List.foldl_map, List.foldl_map]
      rfl

end Entries

theorem mem_computeSeverity {pairs : List SourcePair} {strategy : String}
    {weights : GoMap Float64} {m : SeverityObservation}
    (hm : m ∈ computeSeverity pairs strategy weights) :
    ∃ e₀ es, withKey ScoredObservation.schemeKey (pairs.flatMap (weighted weights))
        (schemeKeyOf m) = e₀ :: es ∧
      m.score = (mergeSchemeObservations e₀ es strategy).score := by
  rw [computeSeverity_eq_map] at hm
  obtain ⟨key, hkey, rfl⟩ := List.mem_map.mp hm
  obtain ⟨e₀, es, hes⟩ := exists_entries weights hkey
  refine ⟨e₀, es, ?_, ?_⟩
  · rw [schemeKeyOf_mergedObservation, hes]
  · rw [mergedObservation, hes]

/-! ## The score `max` leaves -/

/-- The scores of a scheme and version, in order. -/
def keyScores (pairs : List SourcePair) (key : String × String) : List Float64 :=
  ((severities pairs).filter fun s => schemeKeyOf s = key).filterMap (·.score)

/-- The largest score of a scheme and version. There is none if the FIRST
score is not a number: the running maximum of the source starts there. -/
def KeyTop (pairs : List SourcePair) (key : String × String) (x : Float64) : Prop :=
  ∃ first rest, keyScores pairs key = first :: rest ∧ first ≠ .nan ∧ x ∈ first :: rest ∧
    ∀ y ∈ first :: rest, y ≠ .nan → Float64.le y x = true

theorem keyScores_eq (pairs : List SourcePair) (weights : GoMap Float64)
    (key : String × String) :
    keyScores pairs key =
      ((withKey ScoredObservation.schemeKey (pairs.flatMap (weighted weights)) key).filterMap
        fun e => e.obs.score.map fun x => (e, x)).map (·.2) := by
  have hobs : severities pairs = (pairs.flatMap (weighted weights)).map (·.obs) := by
    simp only [severities, List.map_flatMap, weighted, List.map_map, Function.comp_def,
      List.map_id']
  rw [keyScores, hobs, List.filter_map, List.filterMap_map, List.map_filterMap]
  refine List.filterMap_congr fun e _ => ?_
  cases h : e.obs.score <;> simp [h]

/-- A running maximum that starts at no number never moves. -/
theorem maxObservation_nan {first : ScoredObservation × Float64}
    {rest : List (ScoredObservation × Float64)} (hfirst : first.2 = .nan) :
    maxObservation first rest = { scheme := "" } := by
  have hstay : rest.foldl (fun m e => if Float64.lt m e.2 then e.2 else m) first.2 = .nan := by
    rw [hfirst]
    induction rest with
    | nil => rfl
    | cons e rest ih => exact ih
  have hnone : (first :: rest).find? (fun e => Float64.le .nan e.2) = none := by
    rw [List.find?_eq_none]
    intro e _
    simp [Float64.le]
  simp only [maxObservation, hstay, hnone]

theorem maxObservation_score_iff {first : ScoredObservation × Float64}
    {rest : List (ScoredObservation × Float64)}
    (hcarry : ∀ p ∈ first :: rest, p.1.obs.score = some p.2) {x : Float64} :
    (maxObservation first rest).score = some x ↔
      first.2 ≠ .nan ∧ x ∈ (first :: rest).map (·.2) ∧
        ∀ y ∈ (first :: rest).map (·.2), y ≠ .nan → Float64.le y x = true := by
  by_cases hfirst : first.2 = .nan
  · simp [maxObservation_nan hfirst, hfirst]
  obtain ⟨e, he, hmax, hbound⟩ := maxObservation_spec first rest hfirst
  have htop : ∀ y ∈ (first :: rest).map (·.2), y ≠ .nan → Float64.le y e.2 = true := by
    intro y hy hne
    obtain ⟨p, hp, rfl⟩ := List.mem_map.mp hy
    exact hbound p hp hne
  have hmem : e.2 ∈ (first :: rest).map (·.2) := List.mem_map.mpr ⟨e, he, rfl⟩
  have hhead : first.2 ∈ (first :: rest).map (·.2) := by simp
  rw [hmax, hcarry e he, Option.some.injEq]
  constructor
  · rintro rfl
    exact ⟨hfirst, hmem, htop⟩
  · rintro ⟨-, hx, hxtop⟩
    have hxnum : x ≠ .nan := (Float64.ne_nan_of_le (hxtop _ hhead hfirst)).2
    have henum : e.2 ≠ .nan := (Float64.ne_nan_of_le (htop _ hhead hfirst)).2
    exact Float64.le_antisymm (hxtop _ hmem henum) (htop x hx hxnum)

/-- Under `max` a merged score is the largest one. -/
theorem mergedObservation_max {pairs : List SourcePair} {weights : GoMap Float64}
    {key : String × String} {x : Float64} :
    (mergedObservation pairs "max" weights key).score = some x ↔ KeyTop pairs key x := by
  unfold KeyTop mergedObservation
  rw [keyScores_eq pairs weights key]
  cases hes : withKey ScoredObservation.schemeKey (pairs.flatMap (weighted weights)) key with
  | nil => simp
  | cons e₀ es =>
    have hscored := @mem_scored (e₀ :: es)
    simp only [mergeSchemeObservations]
    generalize (e₀ :: es).filterMap (fun e => e.obs.score.map fun x => (e, x)) = scored
      at hscored
    cases scored with
    | nil =>
      have hnone : e₀.obs.score = none := by
        cases h : e₀.obs.score with
        | none => rfl
        | some y =>
          have := hscored.mpr (show (e₀, y).1 ∈ e₀ :: es ∧ _ from ⟨by simp, h⟩)
          simp at this
      simp [hnone]
    | cons first rest =>
      have hmean : ("max" : String) ≠ "mean" := by decide
      have htrust : ("max" : String) ≠ "trust_weighted" := by decide
      simp only [if_neg hmean, if_neg htrust]
      rw [maxObservation_score_iff fun p hp => (hscored.mp hp).2]
      constructor
      · rintro ⟨hfirst, hx, htop⟩
        exact ⟨first.2, rest.map Prod.snd, rfl, hfirst, hx, htop⟩
      · rintro ⟨y, ys, hcons, hy, hx, htop⟩
        obtain ⟨rfl, rfl⟩ := List.cons.inj hcons
        exact ⟨hy, hx, htop⟩

/-! ## The bounds -/

theorem le_zero_weight {weights : GoMap Float64}
    (hweights : ∀ id w, weights.lookup id = some w → Float64.le .zero w = true)
    (id : String) : Float64.le .zero ((weights.lookup id).getD Float64.one) = true := by
  cases h : weights.lookup id with
  | none => decide
  | some w => exact hweights id w h

/-- Over finite scores and nonnegative weights, the merged severities are
one for each scheme and version, in order of first appearance, and a
merged score is what `MergedScore` says. -/
theorem computeSeverity_bounds (pairs : List SourcePair) (strategy : String)
    (weights : GoMap Float64)
    (hscores : ∀ s ∈ severities pairs, ∀ x, s.score = some x → x.isFinite = true)
    (hweights : ∀ id w, weights.lookup id = some w → Float64.le .zero w = true) :
    (computeSeverity pairs strategy weights).map schemeKeyOf =
        keyOrder schemeKeyOf (severities pairs) ∧
      ∀ m ∈ computeSeverity pairs strategy weights,
        keyScored pairs weights (schemeKeyOf m) ≠ [] →
          ∃ y, m.score = some y ∧
            MergedScore strategy (keyScored pairs weights (schemeKeyOf m)) y := by
  refine ⟨computeSeverity_eq pairs strategy weights, fun m hm hsome => ?_⟩
  obtain ⟨e₀, es, hentries, hscore⟩ := mem_computeSeverity hm
  have hmem : ∀ e ∈ e₀ :: es, e ∈ pairs.flatMap (weighted weights) := by
    intro e he
    rw [← hentries] at he
    exact List.mem_of_mem_filter he
  rw [keyScored_eq, hentries] at hsome ⊢
  rw [hscore]
  refine mergeSchemeObservations_score (fun x hx => ?_) (fun x hx => ?_) hsome
  · obtain ⟨e, he, hx, -⟩ := mem_entryScored.mp hx
    exact hscores e.obs (obs_mem_severities (hmem e he)) _ hx
  · obtain ⟨e, he, -, hw⟩ := mem_entryScored.mp hx
    obtain ⟨p, -, hp⟩ := List.mem_flatMap.mp (hmem e he)
    obtain ⟨s, -, rfl⟩ := List.mem_map.mp hp
    rw [← hw]
    exact le_zero_weight hweights _

/-- A source of provider `p` that reports a CVSS score, as it is read from
decimal digits. -/
def scoredSource (p : String) (score : ℚ) : SourcePair :=
  { result := { id := "r", provider := { id := p }, execution := { status := .completed } }
    finding :=
      { id := "f", type := "vulnerability"
        severity := [{ scheme := "cvss", version := "3.1", score := some (.round score) }] } }

/-- Weights 3 and 1 for the scores 5 and 9: the average is 6, and what is
known of it is that it lies between the two, up to the slack. -/
theorem computeSeverity_bounds_trusted :
    let pairs := [scoredSource "a" 5, scoredSource "b" 9]
    let weights := (∅ : GoMap Float64).insert "a" (.fin 3)
    (computeSeverity pairs "trust_weighted" weights).map (·.score) = [some (.fin 6)] ∧
      ∀ m ∈ computeSeverity pairs "trust_weighted" weights, schemeKeyOf m = ("cvss", "3.1") →
        ∃ y, m.score = some y ∧
          Float64.Within (Float64.slack 2 9 4) [.fin 5, .fin 9] y := by
  intro pairs weights
  have hkey : keyScored pairs weights ("cvss", "3.1") =
      [(.fin 5, .fin 3), (.fin 9, .fin 1)] := by
    decide +kernel
  have hscores : ∀ s ∈ severities pairs, ∀ x, s.score = some x → x.isFinite = true := by
    have hall : (severities pairs).all (fun s => s.score.all Float64.isFinite) = true := by
      decide +kernel
    intro s hs x hx
    have hfinite := List.all_eq_true.mp hall s hs
    rwa [hx] at hfinite
  have hweights : ∀ id w, weights.lookup id = some w → Float64.le .zero w = true := by
    intro id w h
    by_cases hid : id = "a"
    · subst hid
      rw [Finmap.lookup_insert] at h
      rw [← Option.some.inj h]
      decide +kernel
    · rw [Finmap.lookup_insert_of_ne _ hid, Finmap.lookup_empty] at h
      cases h
  refine ⟨by decide +kernel, fun m hm hmkey => ?_⟩
  obtain ⟨y, hy, hmerged⟩ :=
    (computeSeverity_bounds pairs "trust_weighted" weights hscores hweights).2 m hm
      (by simp [hmkey, hkey])
  rw [hmkey, hkey] at hmerged
  have htotal : totalWeight [(.fin 5, .fin 3), (.fin 9, .fin 1)] = 4 := by decide +kernel
  have hrange : Float64.InRange 2 9 4 :=
    ⟨by decide, by decide +kernel, by decide +kernel, by decide +kernel, by decide +kernel⟩
  have hwithin := hmerged.trust rfl (by decide) 9 (by decide +kernel) (by rwa [htotal])
  rw [htotal] at hwithin
  exact ⟨y, hy, hwithin⟩

/-- Where a merged score is outside the scores. Two providers that agree on
9.8 but carry no trust: it is 0. Three that agree on 7.1: their average
is rounded to less. Two that report the largest number: their sum
overflows. -/
theorem merged_score_outside :
    (computeSeverity [scoredSource "a" (98 / 10), scoredSource "b" (98 / 10)] "trust_weighted"
        (((∅ : GoMap Float64).insert "a" .zero).insert "b" .zero)).map (·.score) =
      [some (.fin 0)] ∧
    (∃ y, (computeSeverity [scoredSource "a" (71 / 10), scoredSource "b" (71 / 10),
        scoredSource "c" (71 / 10)] "mean" ∅).map (·.score) = [some y] ∧
      Float64.lt y (.round (71 / 10)) = true) ∧
    (computeSeverity [scoredSource "a" ((2 ^ 53 - 1) * 2 ^ 971),
        scoredSource "b" ((2 ^ 53 - 1) * 2 ^ 971)] "mean" ∅).map (·.score) =
      [some (.inf false)] := by
  refine ⟨by decide +kernel, ⟨.fin (7993889338582629 / 2 ^ 50), ?_, ?_⟩, ?_⟩ <;> decide +kernel

end Scintx.Orchestrator
