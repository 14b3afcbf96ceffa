/-
Scintx.Orchestrator.AggregatorTheorems — what a group of observations is
merged into, in terms that do not mention the order of the group.

The reconciled status and the presence of conflicts depend on WHICH
statuses occur; the merged severity under `max` has, per scheme and
version, the largest score that occurs. The merged type is another
matter: it is the first observation's, and nothing here speaks of it.
-/
import Scintx.Orchestrator.Aggregator

namespace Scintx.Orchestrator

open Scintx.Lib Scintx.Api

/-! ## Assessments -/

/-- The statuses the sources of a group carry. -/
def statuses (pairs : List SourcePair) : List AssessmentStatus :=
  pairs.filterMap fun p => p.finding.assessment.map (·.status)

/-- The lattice of the source. -/
def reconciledStatus (sts : List AssessmentStatus) : Option AssessmentStatus :=
  if sts = [] then none
  else if .affected ∈ sts then some .affected
  else if .underInvestigation ∈ sts then some .underInvestigation
  else if ∀ s ∈ sts, s = .notAffected then some .notAffected
  else some .underInvestigation

theorem statuses_eq_map (pairs : List SourcePair) :
    statuses pairs =
      (pairs.filterMap fun p =>
        p.finding.assessment.map fun a => (p.result.id, a.status)).map (·.2) := by
  rw [statuses, List.map_filterMap]
  congr 1
  funext p
  cases p.finding.assessment <;> rfl

/-- What `reconcileAssessment` returns, by the statuses that occur. -/
theorem reconcileAssessment_spec (pairs : List SourcePair) :
    (reconcileAssessment pairs).1.map (·.status) = reconciledStatus (statuses pairs) ∧
    ((reconcileAssessment pairs).2 ≠ [] ↔
      .affected ∈ statuses pairs ∧ .notAffected ∈ statuses pairs) := by
  rw [statuses_eq_map]
  unfold reconcileAssessment
  generalize pairs.filterMap
    (fun p => p.finding.assessment.map fun a => (p.result.id, a.status)) = obs
  by_cases hnil : obs = []
  · simp [hnil, reconciledStatus]
  have haff : (obs.any fun o => decide (o.2 = .affected)) = true ↔
      .affected ∈ obs.map (·.2) := by simp
  have hund : (obs.any fun o => decide (o.2 = .underInvestigation)) = true ↔
      .underInvestigation ∈ obs.map (·.2) := by simp
  have hall : (obs.all fun o => decide (o.2 = .notAffected)) = true ↔
      ∀ s ∈ obs.map (·.2), s = .notAffected := by
    simp only [List.all_eq_true, decide_eq_true_eq, List.forall_mem_map]
  have hmap : obs.map (·.2) ≠ [] := by simpa using hnil
  simp only [if_neg hnil, reconciledStatus, if_neg hmap, haff, hund, hall]
  by_cases ha : AssessmentStatus.affected ∈ obs.map (·.2)
  · -- one source is affected, so not all are not affected
    have hnot : ¬ ∀ s ∈ obs.map (·.2), s = AssessmentStatus.notAffected :=
      fun h => by cases h _ ha
    rw [if_neg (fun h => hnot h.2), if_pos ha, if_pos ha]
    refine ⟨rfl, ?_⟩
    simp only [ha, true_and, ne_eq, List.map_eq_nil_iff, List.filter_eq_nil_iff,
      decide_eq_true_eq, not_forall, not_not, List.mem_map]
    exact ⟨fun ⟨o, ho, h⟩ => ⟨o, ho, h⟩, fun ⟨o, ho, h⟩ => ⟨o, ho, h⟩⟩
  · rw [if_neg (fun h => ha h.1), if_neg ha, if_neg ha]
    simp only [ha, false_and, iff_false, not_not]
    split
    · exact ⟨rfl, rfl⟩
    · split <;> exact ⟨rfl, rfl⟩

theorem reconciledStatus_congr {a b : List AssessmentStatus} (h : ∀ s, s ∈ a ↔ s ∈ b) :
    reconciledStatus a = reconciledStatus b := by
  have hnil : a = [] ↔ b = [] := by
    simp only [List.eq_nil_iff_forall_not_mem, h]
  simp only [reconciledStatus, hnil, h]

theorem reconciledStatus_of_affected {sts : List AssessmentStatus} (h : .affected ∈ sts) :
    reconciledStatus sts = some .affected := by
  unfold reconciledStatus
  rw [if_neg (List.ne_nil_of_mem h), if_pos h]

theorem affected_of_reconciledStatus {sts : List AssessmentStatus}
    (h : reconciledStatus sts = some .affected) : .affected ∈ sts := by
  unfold reconciledStatus at h
  by_contra hno
  rw [if_neg hno] at h
  repeat' split at h
  all_goals cases h

/-! ## Severities under `max` -/

/-- The severity observations of a group. -/
def severities (pairs : List SourcePair) : List SeverityObservation :=
  pairs.flatMap fun p => p.finding.severity

/-- Every score of the list is a number. -/
def Numeric (obs : List SeverityObservation) : Prop :=
  ∀ s ∈ obs, s.score ≠ some .nan

/-- The running maximum of the source, from a number on: it bounds every
number, passes over what is none, and is one of the scores. -/
theorem foldl_max_spec {α : Type} (score : α → Float64) (l : List α) (m : Float64)
    (hm : m ≠ .nan) :
    let top := l.foldl (fun m e => if Float64.lt m (score e) then score e else m) m
    (top = m ∨ ∃ e ∈ l, score e = top) ∧ Float64.le m top = true ∧
      ∀ e ∈ l, score e ≠ .nan → Float64.le (score e) top = true := by
  induction l generalizing m with
  | nil => simp [Float64.le_refl hm]
  | cons x l ih =>
    simp only [List.foldl_cons]
    split
    · rename_i hlt
      have hx : score x ≠ .nan := (Float64.ne_nan_of_le (Float64.le_of_lt hlt)).2
      obtain ⟨hmem, hle, hall⟩ := ih (score x) hx
      refine ⟨.inr ?_, Float64.le_trans (Float64.le_of_lt hlt) hle, ?_⟩
      · rcases hmem with h | ⟨e, he, h⟩
        · exact ⟨x, by simp, h.symm⟩
        · exact ⟨e, by simp [he], h⟩
      · intro e he hnum
        rcases List.mem_cons.mp he with rfl | he
        · exact hle
        · exact hall e he hnum
    · rename_i hlt
      obtain ⟨hmem, hle, hall⟩ := ih m hm
      refine ⟨?_, hle, ?_⟩
      · rcases hmem with h | ⟨e, he, h⟩
        · exact .inl h
        · exact .inr ⟨e, by simp [he], h⟩
      · intro e he hnum
        rcases List.mem_cons.mp he with rfl | he
        · have hxm := (Float64.lt_or_le hm hnum).resolve_left hlt
          exact Float64.le_trans hxm hle
        · exact hall e he hnum

/-- If the first score is a number, `max` keeps an observation of the
largest score. -/
theorem maxObservation_spec (first : ScoredObservation × Float64)
    (rest : List (ScoredObservation × Float64)) (hfirst : first.2 ≠ .nan) :
    ∃ e ∈ first :: rest, maxObservation first rest = e.1.obs ∧
      ∀ e' ∈ first :: rest, e'.2 ≠ .nan → Float64.le e'.2 e.2 = true := by
  obtain ⟨hmem, hle, hall⟩ := foldl_max_spec (·.2) rest first.2 hfirst
  unfold maxObservation
  generalize rest.foldl (fun m e => if Float64.lt m e.2 then e.2 else m) first.2 = top
    at hmem hle hall ⊢
  have hnum : top ≠ .nan := (Float64.ne_nan_of_le hle).2
  have hbound : ∀ e ∈ first :: rest, e.2 ≠ .nan → Float64.le e.2 top = true := by
    intro e he hne
    rcases List.mem_cons.mp he with rfl | he
    · exact hle
    · exact hall e he hne
  have hfind : ((first :: rest).find? fun e => Float64.le top e.2).isSome := by
    rw [List.find?_isSome]
    rcases hmem with rfl | ⟨e, he, rfl⟩
    · exact ⟨first, by simp, Float64.le_refl hnum⟩
    · exact ⟨e, by simp [he], Float64.le_refl hnum⟩
  obtain ⟨e, he⟩ := Option.isSome_iff_exists.mp hfind
  simp only [he]
  have hemem := List.mem_of_find?_eq_some he
  have hle' := List.find?_some he
  exact ⟨e, hemem, rfl, fun e' he' hne => Float64.le_trans (hbound e' he' hne) hle'⟩

/-- The entries of a scheme that have a score, as
`mergeSchemeObservations` collects them. -/
theorem mem_scored {es : List ScoredObservation} {p : ScoredObservation × Float64} :
    p ∈ es.filterMap (fun e => e.obs.score.map fun x => (e, x)) ↔
      p.1 ∈ es ∧ p.1.obs.score = some p.2 := by
  obtain ⟨e, x⟩ := p
  simp only [List.mem_filterMap, Option.map_eq_some_iff, Prod.mk.injEq]
  constructor
  · rintro ⟨a, ha, y, hy, rfl, rfl⟩
    exact ⟨ha, hy⟩
  · rintro ⟨he, hx⟩
    exact ⟨e, he, x, hx, rfl, rfl⟩

/-- Under `max` the observations of one scheme are merged into one of
them; if one has a score, into one with the largest. -/
theorem mergeSchemeObservations_max {e₀ : ScoredObservation} {es : List ScoredObservation}
    (strategy : String) (hmean : strategy ≠ "mean") (htrust : strategy ≠ "trust_weighted")
    (hn : ∀ e ∈ e₀ :: es, e.obs.score ≠ some .nan) :
    ∃ e ∈ e₀ :: es, mergeSchemeObservations e₀ es strategy = e.obs ∧
      ∀ e' ∈ e₀ :: es, ∀ x, e'.obs.score = some x →
        ∃ y, e.obs.score = some y ∧ Float64.le x y = true := by
  unfold mergeSchemeObservations
  have hmem := @mem_scored (e₀ :: es)
  generalize (e₀ :: es).filterMap (fun e => e.obs.score.map fun x => (e, x)) = scored at hmem
  cases scored with
  | nil =>
    refine ⟨e₀, by simp, rfl, fun e' he' x hx => ?_⟩
    simpa using hmem.mpr (show (e', x).1 ∈ e₀ :: es ∧ _ from ⟨he', hx⟩)
  | cons first rest =>
    have hnum : ∀ p ∈ first :: rest, p.2 ≠ .nan := by
      intro p hp hnan
      obtain ⟨hp1, hp2⟩ := hmem.mp hp
      exact hn p.1 hp1 (hnan ▸ hp2)
    obtain ⟨p, hp, hmax, hbound⟩ := maxObservation_spec first rest (hnum first (by simp))
    obtain ⟨hp1, hp2⟩ := hmem.mp hp
    refine ⟨p.1, hp1, ?_, fun e' he' x hx => ?_⟩
    · simp only [if_neg hmean, if_neg htrust]
      exact hmax
    · have hin : (e', x) ∈ first :: rest := hmem.mpr ⟨he', hx⟩
      exact ⟨p.2, hp2, hbound (e', x) hin (hnum _ hin)⟩

theorem obs_mem_severities {weights : GoMap Float64} {pairs : List SourcePair}
    {e : ScoredObservation} (h : e ∈ pairs.flatMap (weighted weights)) :
    e.obs ∈ severities pairs := by
  simp only [List.mem_flatMap, weighted, List.mem_map] at h
  obtain ⟨p, hp, sev, hsev, rfl⟩ := h
  exact List.mem_flatMap.mpr ⟨p, hp, hsev⟩

theorem exists_weighted (weights : GoMap Float64) {pairs : List SourcePair}
    {s : SeverityObservation} (h : s ∈ severities pairs) :
    ∃ e ∈ pairs.flatMap (weighted weights), e.obs = s := by
  obtain ⟨p, hp, hs⟩ := List.mem_flatMap.mp h
  exact ⟨_, List.mem_flatMap.mpr ⟨p, hp, List.mem_map.mpr ⟨s, hs, rfl⟩⟩, rfl⟩

/-- The merged severities under `max`, one per scheme and version: each
is an observation of the group of the largest score in its scheme. -/
theorem mem_computeSeverity_max {pairs : List SourcePair} {weights : GoMap Float64}
    (hn : Numeric (severities pairs)) {m : SeverityObservation} :
    m ∈ computeSeverity pairs "max" weights →
      m ∈ severities pairs ∧
        ∀ s ∈ severities pairs, s.scheme = m.scheme → s.version = m.version →
          ∀ x, s.score = some x → ∃ y, m.score = some y ∧ Float64.le x y = true := by
  intro hm
  simp only [computeSeverity, List.mem_filterMap] at hm
  obtain ⟨⟨key, entries⟩, hgroup, hm⟩ := hm
  obtain ⟨rfl, hne⟩ := mem_groupBy.mp hgroup
  cases hentries : withKey ScoredObservation.schemeKey (pairs.flatMap (weighted weights)) key with
  | nil => exact absurd hentries hne
  | cons e₀ es =>
    simp only [hentries, Option.some.injEq] at hm
    have hmem : ∀ e, e ∈ e₀ :: es ↔
        e ∈ pairs.flatMap (weighted weights) ∧ e.schemeKey = key := by
      intro e
      rw [← hentries, withKey, List.mem_filter, decide_eq_true_eq]
    have hnum : ∀ e ∈ e₀ :: es, e.obs.score ≠ some .nan := fun e he =>
      hn e.obs (obs_mem_severities ((hmem e).mp he).1)
    obtain ⟨e, he, hmerge, hbound⟩ :=
      mergeSchemeObservations_max "max" (by decide) (by decide) hnum
    obtain ⟨heall, hekey⟩ := (hmem e).mp he
    rw [hmerge] at hm
    have hme : m = e.obs := by
      rw [← hm, ← hekey]
      rfl
    subst hme
    refine ⟨obs_mem_severities heall, fun s hs hscheme hversion x hx => ?_⟩
    obtain ⟨e', he', rfl⟩ := exists_weighted weights hs
    refine hbound e' ((hmem e').mpr ⟨he', ?_⟩) x hx
    rw [← hekey, ScoredObservation.schemeKey, ScoredObservation.schemeKey, hscheme, hversion]

/-- Every scheme and version of the group has a merged observation. -/
theorem exists_mem_computeSeverity {pairs : List SourcePair} (strategy : String)
    (weights : GoMap Float64) {s : SeverityObservation} (hs : s ∈ severities pairs) :
    ∃ m ∈ computeSeverity pairs strategy weights,
      m.scheme = s.scheme ∧ m.version = s.version := by
  obtain ⟨e, he, rfl⟩ := exists_weighted weights hs
  have hgroup : e ∈ withKey ScoredObservation.schemeKey (pairs.flatMap (weighted weights))
      e.schemeKey := by
    simp [withKey, he]
  cases hentries : withKey ScoredObservation.schemeKey (pairs.flatMap (weighted weights))
      e.schemeKey with
  | nil => simp [hentries] at hgroup
  | cons e₀ es =>
    refine ⟨_, List.mem_filterMap.mpr ⟨(e.schemeKey, e₀ :: es), ?_, rfl⟩, rfl, rfl⟩
    exact mem_groupBy.mpr ⟨hentries.symm, by simp⟩

end Scintx.Orchestrator
