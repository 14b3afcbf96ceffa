/-
Scintx.Api.MatchingTheorems — what a provider's manifest says an artifact
is eligible for, and what `MatchingCapability` finds of it.

`Requirement.Met` is what each kind of requirement asks of an artifact;
the checks of the source decide it. A capability serves an artifact if
one of its profiles has all its requirements met.

A manifest may advertise several versions of one capability id.
`MatchingCapability` returns at the first of them, eligible or not.
-/
import Scintx.Api.Matching

namespace Scintx.Api

open Scintx.Lib

/-- A reference of an admitted format and version; no formats admit all. -/
def Admitted (formats : GoMap (List String)) (ref : ResourceReference) : Prop :=
  formats = ∅ ∨ ∃ versions, formats.lookup ref.format = some versions ∧
    ref.formatVersion ∈ versions

theorem refSatisfied_iff {formats : GoMap (List String)} {refs : List ResourceReference} :
    refSatisfied formats refs = true ↔ ∃ ref ∈ refs, Admitted formats ref := by
  simp only [refSatisfied, List.any_eq_true, Bool.or_eq_true, decide_eq_true_eq, Admitted,
    List.contains_eq_mem]
  refine exists_congr fun ref => and_congr_right fun _ => or_congr_right ?_
  cases formats.lookup ref.format <;> simp

/-- A check over references fails at once on an empty list. -/
theorem refs_check_iff {refs : List ResourceReference} {formats : GoMap (List String)}
    {missing unmatched : String} :
    (if refs = [] then some missing
      else if refSatisfied formats refs then none else some unmatched) = none ↔
        ∃ ref ∈ refs, Admitted formats ref := by
  rw [← refSatisfied_iff]
  split
  · rename_i h
    simp [h, refSatisfied]
  · split <;> simp_all

/-! ## The first capability with an id -/

/-- The first capability with the requested id, if there is one. -/
def IsFirst (capabilities : List Capability) (id : String) (c : Capability) : Prop :=
  ∃ front back, capabilities = front ++ c :: back ∧ (∀ c' ∈ front, c'.id ≠ id) ∧ c.id = id

theorem isFirst_iff {capabilities : List Capability} {id : String} {c : Capability} :
    IsFirst capabilities id c ↔ capabilities.find? (fun c => c.id = id) = some c := by
  rw [List.find?_eq_some_iff_append]
  simp only [IsFirst, decide_eq_true_eq, Bool.not_eq_true', decide_eq_false_iff_not]
  constructor
  · rintro ⟨front, back, heq, hfront, hid⟩
    exact ⟨hid, front, back, heq, hfront⟩
  · rintro ⟨hid, front, back, heq, hfront⟩
    exact ⟨front, back, heq, hfront, hid⟩

theorem IsFirst.mem {capabilities : List Capability} {id : String} {c : Capability}
    (h : IsFirst capabilities id c) : c ∈ capabilities ∧ c.id = id := by
  obtain ⟨front, back, rfl, -, hid⟩ := h
  exact ⟨by simp, hid⟩

theorem exists_isFirst {capabilities : List Capability} {c : Capability}
    (h : c ∈ capabilities) : ∃ c', IsFirst capabilities c.id c' := by
  have hsome : (capabilities.find? fun c' => c'.id = c.id).isSome := by
    rw [List.find?_isSome]
    exact ⟨c, h, by simp⟩
  obtain ⟨c', hc'⟩ := Option.isSome_iff_exists.mp hsome
  exact ⟨c', isFirst_iff.mpr hc'⟩

/-! ## Requirements -/

section Given

variable [GoStd]

/-- What a requirement asks of an artifact. -/
def Requirement.Met (artifact : Artifact) (req : Requirement) : Prop :=
  match req.kind with
  | .purl => ∃ purl cp, artifact.purl = some purl ∧ purl ≠ "" ∧ canonicalPurl purl = .ok cp ∧
      (req.types = [] ∨ (purlType cp).toOption.getD "" ∈ req.types)
  | .digest => artifact.digests ≠ ∅ ∧
      (req.algorithms = [] ∨ ∃ a ∈ req.algorithms, artifact.digests.lookup a ≠ none)
  | .content => artifact.contentRef ≠ none
  | .sbom => ∃ ref ∈ artifact.sbomRefs, Admitted req.formats ref
  | .provenance => ∃ ref ∈ artifact.provenanceRefs, Admitted req.formats ref
  | .other _ _ => False

theorem requirementSatisfied_iff {artifact : Artifact} {req : Requirement} :
    requirementSatisfied artifact req = none ↔ req.Met artifact := by
  unfold requirementSatisfied Requirement.Met
  cases req.kind with
  | purl =>
    cases artifact.purl with
    | none => simp
    | some purl =>
      by_cases hempty : purl = ""
      · simp [hempty]
      cases hcanon : canonicalPurl purl with
      | error e => simp [hempty, hcanon]
      | ok cp =>
        cases htype : purlType cp <;> simp [hempty, hcanon, htype, Except.toOption] <;> tauto
  | digest =>
    by_cases hnone : artifact.digests = ∅
    · simp [hnone]
    · simp [hnone]
      tauto
  | content => simp
  | sbom => exact refs_check_iff
  | provenance => exact refs_check_iff
  | other s h => simp

/-- A capability with a profile all of whose requirements are met. -/
def Capability.Serves (artifact : Artifact) (c : Capability) : Prop :=
  ∃ p ∈ c.inputProfiles, ∀ req ∈ p.requires, req.Met artifact

theorem profileSatisfied_iff {artifact : Artifact} {p : InputProfile} :
    profileSatisfied artifact p = none ↔ ∀ req ∈ p.requires, req.Met artifact := by
  simp only [profileSatisfied, List.findSome?_eq_none_iff, requirementSatisfied_iff]

theorem capabilityEligible_iff {artifact : Artifact} {c : Capability} :
    (capabilityEligible artifact c).eligible = true ↔ c.Serves artifact := by
  have hany : (c.inputProfiles.any fun p => (profileSatisfied artifact p).isNone) = true ↔
      c.Serves artifact := by
    simp only [List.any_eq_true, Option.isNone_iff_eq_none, profileSatisfied_iff]
    rfl
  rw [← hany, capabilityEligible]
  split <;> simp_all

/-- `MatchingCapability` finds the first capability with the id, if that
one serves the artifact. -/
theorem matchingCapability_eq_ok {artifact : Artifact} {capabilities : List Capability}
    {id : String} {c : Capability} :
    matchingCapability artifact capabilities id = .ok c ↔
      IsFirst capabilities id c ∧ c.Serves artifact := by
  rw [isFirst_iff, matchingCapability]
  cases hfind : capabilities.find? fun c => c.id = id with
  | none => simp
  | some c' =>
    simp only [Option.some.injEq]
    by_cases hserves : (capabilityEligible artifact c').eligible = true
    · rw [if_pos hserves]
      simp only [Except.ok.injEq]
      constructor
      · rintro rfl
        exact ⟨rfl, capabilityEligible_iff.mp hserves⟩
      · exact fun h => h.1
    · rw [if_neg hserves]
      simp only [reduceCtorEq, false_iff, not_and]
      rintro rfl h
      exact hserves (capabilityEligible_iff.mpr h)

/-- What `MatchingCapability` returns is always a capability with the id
that serves the artifact. It returns one whenever there is one exactly if
the first capability with the id serves or none with it does. -/
theorem matchingCapability_complete_iff (artifact : Artifact) (capabilities : List Capability)
    (id : String) :
    (((∃ c, matchingCapability artifact capabilities id = .ok c) ↔
        ∃ c ∈ capabilities, c.id = id ∧ c.Serves artifact) ∧
      ∀ c, matchingCapability artifact capabilities id = .ok c →
        c ∈ capabilities ∧ c.id = id ∧ c.Serves artifact) ↔
    ∀ c, IsFirst capabilities id c →
      c.Serves artifact ∨ ∀ c' ∈ capabilities, c'.id = id → ¬ c'.Serves artifact := by
  simp only [matchingCapability_eq_ok]
  constructor
  · rintro ⟨hiff, -⟩ c hc
    refine or_iff_not_imp_right.mpr fun hsome => ?_
    push Not at hsome
    obtain ⟨c', hc', hid, hserves⟩ := hsome
    obtain ⟨c₁, hc₁, hs₁⟩ := hiff.mpr ⟨c', hc', hid, hserves⟩
    rw [isFirst_iff] at hc hc₁
    rwa [Option.some.inj (hc.symm.trans hc₁)]
  · intro hfirst
    refine ⟨⟨?_, ?_⟩, ?_⟩
    · rintro ⟨c, hc, hserves⟩
      exact ⟨c, hc.mem.1, hc.mem.2, hserves⟩
    · rintro ⟨c, hc, rfl, hserves⟩
      obtain ⟨c', hc'⟩ := exists_isFirst hc
      exact ⟨c', hc', (hfirst c' hc').resolve_right fun h => h c hc rfl hserves⟩
    · rintro c ⟨hc, hserves⟩
      exact ⟨hc.mem.1, hc.mem.2, hserves⟩

end Given

/-- The two versions of a capability: the first reads the content of an
artifact, the second an SBOM. -/
def scanContent : Capability :=
  { id := "vulnerability", version := "v1"
    inputProfiles := [{ id := "content", requires := [{ kind := .content }] }] }

def scanSbom : Capability :=
  { id := "vulnerability", version := "v2"
    inputProfiles := [{ id := "sbom", requires := [{ kind := .sbom }] }] }

/-- An artifact with an SBOM and no content. -/
def sbomArtifact : Artifact :=
  { purl := none, sbomRefs := [{ uri := "sbom", format := "cyclonedx", formatVersion := "1.5" }] }

/-- The second version serves the artifact, by itself it is found, and
behind the first it is not. -/
theorem second_version_missed :
    let _ := GoStd.plain
    scanSbom.Serves sbomArtifact ∧
    matchingCapability sbomArtifact [scanSbom] "vulnerability" = .ok scanSbom ∧
    matchingCapability sbomArtifact [scanContent, scanSbom] "vulnerability" =
      .error { capability := "vulnerability:v1", eligible := false
               reasons := [{ code := .missingInput, input := "content"
                             detail := "missing content" }] } := by
  refine ⟨(@capabilityEligible_iff GoStd.plain _ _).mp ?_, ?_, ?_⟩ <;> decide

end Scintx.Api
