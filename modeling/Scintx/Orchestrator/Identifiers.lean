/-
Scintx.Orchestrator.Identifiers — the identifiers of a merged finding
(`internal/scintx/aggregator.go`, `mergeIdentifiers`).

`mergeIdentifiers` works in two passes that meet only in a NORMALISED
value: `canonicalIdentifiers` says which values there are and in what
order, and a map from a value to the identifier it was first seen with
turns them back into identifiers. So the values of the result are those
of the first pass (`map_mergeIdentifiers`), and everything said of them
is said of `canonicalIdentifiers`: its two parts are two sorted lists
without repetition, and the order its input had is gone.
-/
import Scintx.Orchestrator.Correlation

namespace Scintx.Orchestrator

open Scintx.Lib Scintx.Api

namespace Collects

variable {cve : Bool} {known known' l l' : List String}

theorem sorted (h : Collects cve known l) : (sortStrings l).Pairwise (· < ·) :=
  sortStrings_pairwise_lt h.once

theorem mem_sort (h : Collects cve known l) {v : String} :
    v ∈ sortStrings l ↔ v ∈ known ∧ hasPrefix v "CVE-" = cve := by
  rw [mem_sortStrings, h.mem]

/-- What is collected, once sorted, is a matter of the known texts as a
set. -/
theorem sort_congr (h : Collects cve known l) (h' : Collects cve known' l')
    (hsame : ∀ v, v ∈ known ↔ v ∈ known') : sortStrings l = sortStrings l' := by
  apply sortStrings_perm
  rw [List.perm_ext_iff_of_nodup h.once h'.once]
  intro v
  rw [h.mem, h'.mem, hsame]

end Collects

/-- CVE identifiers first, then the others, each part ascending. -/
def CvesFirst (values : List String) : Prop :=
  ∃ cves others, values = cves ++ others ∧
    (∀ v ∈ cves, hasPrefix v "CVE-" = true) ∧ (∀ v ∈ others, hasPrefix v "CVE-" = false) ∧
    cves.Pairwise (· < ·) ∧ others.Pairwise (· < ·)

theorem CvesFirst.nodup {values : List String} (h : CvesFirst values) : values.Nodup := by
  obtain ⟨cves, others, rfl, hcves, hothers, hc, ho⟩ := h
  rw [List.nodup_append]
  refine ⟨hc.imp fun h => ne_of_lt h, ho.imp fun h => ne_of_lt h, ?_⟩
  rintro v hv u hu rfl
  have htrue := hcves v hv
  rw [hothers v hu] at htrue
  cases htrue

section Given

variable [GoStd]

theorem mem_identifiersOf {ids : List TypedIdentifier} {v : String} :
    v ∈ identifiersOf ids ↔ v ≠ "" ∧ ∃ id ∈ ids, normalize id.value = v := by
  simp only [identifiersOf, List.mem_filter, List.mem_map, decide_eq_true_eq]
  exact and_comm

/-! ## The values -/

theorem cvesFirst_canonicalIdentifiers (ids : List TypedIdentifier) :
    CvesFirst (canonicalIdentifiers ids) := by
  have hscan := scanSpec_scanIdentifiers ids
  refine ⟨_, _, rfl, ?_, ?_, hscan.cves.sorted, hscan.others.sorted⟩
  · intro v hv
    exact (hscan.cves.mem_sort.mp hv).2
  · intro v hv
    exact (hscan.others.mem_sort.mp hv).2

theorem mem_canonicalIdentifiers {ids : List TypedIdentifier} {v : String} :
    v ∈ canonicalIdentifiers ids ↔ v ∈ identifiersOf ids := by
  have hscan := scanSpec_scanIdentifiers ids
  unfold canonicalIdentifiers
  rw [List.mem_append, hscan.cves.mem_sort, hscan.others.mem_sort, ← and_or_left]
  exact and_iff_left (by cases hasPrefix v "CVE-" <;> simp)

theorem canonicalIdentifiers_perm {ids ids' : List TypedIdentifier} (h : ids.Perm ids') :
    canonicalIdentifiers ids = canonicalIdentifiers ids' := by
  have hscan := scanSpec_scanIdentifiers ids
  have hscan' := scanSpec_scanIdentifiers ids'
  have hsame (v : String) : v ∈ identifiersOf ids ↔ v ∈ identifiersOf ids' :=
    ((h.map _).filter _).mem_iff
  simp only [canonicalIdentifiers]
  rw [hscan.cves.sort_congr hscan'.cves hsame, hscan.others.sort_congr hscan'.others hsame]

/-! ## The map back to identifiers -/

/-- The identifier a value was first seen with has that value. -/
theorem normalize_firstSeen {ids : List TypedIdentifier} {v : String}
    (h : v ∈ canonicalIdentifiers ids) :
    normalize ((ids.find? fun id => normalize id.value = v).getD
      { scheme := "", value := "" }).value = v := by
  obtain ⟨-, id, hid, hv⟩ := mem_identifiersOf.mp (mem_canonicalIdentifiers.mp h)
  have hfound : (ids.find? fun id => normalize id.value = v).isSome := by
    rw [List.find?_isSome]
    exact ⟨id, hid, by simpa using hv⟩
  obtain ⟨first, hfirst⟩ := Option.isSome_iff_exists.mp hfound
  rw [hfirst]
  simpa using List.find?_some hfirst

theorem map_mergeIdentifiers (pairs : List SourcePair) :
    (mergeIdentifiers pairs).map (fun id => normalize id.value) =
      canonicalIdentifiers (pairs.flatMap fun p => p.finding.identifiers) := by
  simp only [mergeIdentifiers, List.map_map]
  conv_rhs => rw [← List.map_id (canonicalIdentifiers _)]
  exact List.map_congr_left fun v hv => normalize_firstSeen hv

/-- **The identifiers of a merged finding.** Their normalised values are
the non-blank ones of the sources, each once, CVE identifiers first and
both parts ascending; the order of the sources does not matter. -/
theorem mergeIdentifiers_values (pairs : List SourcePair) :
    ((mergeIdentifiers pairs).map fun id => normalize id.value).Nodup ∧
      (∀ v, v ∈ (mergeIdentifiers pairs).map (fun id => normalize id.value) ↔
        v ≠ "" ∧ ∃ p ∈ pairs, ∃ id ∈ p.finding.identifiers, normalize id.value = v) ∧
      CvesFirst ((mergeIdentifiers pairs).map fun id => normalize id.value) ∧
      ∀ pairs', pairs'.Perm pairs →
        (mergeIdentifiers pairs').map (fun id => normalize id.value) =
          (mergeIdentifiers pairs).map (fun id => normalize id.value) := by
  have hfirst := cvesFirst_canonicalIdentifiers (pairs.flatMap fun p => p.finding.identifiers)
  simp only [map_mergeIdentifiers]
  refine ⟨hfirst.nodup, ?_, hfirst, ?_⟩
  · intro v
    rw [mem_canonicalIdentifiers, mem_identifiersOf]
    simp only [List.mem_flatMap]
    constructor
    · rintro ⟨hne, id, ⟨p, hp, hid⟩, hv⟩
      exact ⟨hne, p, hp, id, hid, hv⟩
    · rintro ⟨hne, p, hp, id, hid, hv⟩
      exact ⟨hne, id, ⟨p, hp, hid⟩, hv⟩
  · intro pairs' hperm
    exact canonicalIdentifiers_perm (hperm.flatMap_right _)

end Given

end Scintx.Orchestrator
