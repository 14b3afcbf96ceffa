/-
Scintx.Api.Matching — which capability of a provider an artifact is
eligible for (`api/matching.go`).

A capability lists input profiles, a profile lists requirements; one
profile with all its requirements met is enough. `matchingCapability`
looks at the FIRST advertised capability with the requested id only.
-/
import Scintx.Api.Purl
import Scintx.Api.Types

namespace Scintx.Api

open Scintx.Lib

inductive RequirementKind where
  | purl
  | digest
  | content
  | sbom
  | provenance
  | other (s : String) (h : s ∉ ["purl", "digest", "content", "sbom", "provenance"])
  deriving DecidableEq

def RequirementKind.text : RequirementKind → String
  | purl => "purl"
  | digest => "digest"
  | content => "content"
  | sbom => "sbom"
  | provenance => "provenance"
  | other s _ => s

structure Requirement where
  kind : RequirementKind
  types : List String := []
  algorithms : List String := []
  formats : GoMap (List String) := ∅
  deriving DecidableEq

structure InputProfile where
  id : String
  requires : List Requirement
  deriving DecidableEq

structure Capability where
  id : String
  version : String
  inputProfiles : List InputProfile
  findingTypes : List String := []
  nativeOutputFormats : List String := []
  limits : GoMap AnyValue := ∅
  costHint : String := ""
  latencyHint : String := ""
  deriving DecidableEq

inductive CompatibilityReasonCode where
  | missingInput
  | noMatchingProfile
  deriving DecidableEq

structure CompatibilityReason where
  code : CompatibilityReasonCode
  input : String := ""
  detail : String := ""
  deriving DecidableEq

structure CompatibilityResult where
  capability : String
  eligible : Bool
  reasons : List CompatibilityReason := []
  deriving DecidableEq

/-- The loop over the references of an SBOM or provenance requirement:
one of an admitted format and version. -/
def refSatisfied (formats : GoMap (List String)) (refs : List ResourceReference) : Bool :=
  refs.any fun ref =>
    formats = ∅ || ((formats.lookup ref.format).getD []).contains ref.formatVersion

section Given

variable [GoStd]

/-- `none` when the requirement is met, else why it is not. -/
def requirementSatisfied (artifact : Artifact) (req : Requirement) : Option String :=
  match req.kind with
  | .purl =>
    match artifact.purl with
    | none => some "missing purl"
    | some purl =>
      if purl = "" then some "missing purl"
      else
        match canonicalPurl purl with
        | .error _ => some "invalid purl"
        | .ok cp =>
          let typ := match purlType cp with
            | .ok typ => typ
            | .error _ => ""
          if req.types ≠ [] ∧ typ ∉ req.types then some ("unsupported purl type: " ++ typ)
          else none
  | .digest =>
    if artifact.digests = ∅ then some "missing digests"
    else if req.algorithms ≠ [] ∧ ∀ a ∈ req.algorithms, artifact.digests.lookup a = none then
      some "no supported digest algorithm"
    else none
  | .content => if artifact.contentRef = none then some "missing content" else none
  | .sbom =>
    if artifact.sbomRefs = [] then some "missing sbom"
    else if refSatisfied req.formats artifact.sbomRefs then none
    else some "no matching sbom format/version"
  | .provenance =>
    if artifact.provenanceRefs = [] then some "missing provenance"
    else if refSatisfied req.formats artifact.provenanceRefs then none
    else some "no matching provenance format/version"
  | .other _ _ => some "unknown requirement kind"

/-- The first requirement of a profile that is not met. -/
def profileSatisfied (artifact : Artifact) (profile : InputProfile) : Option String :=
  profile.requires.findSome? (requirementSatisfied artifact)

def capabilityEligible (artifact : Artifact) (c : Capability) : CompatibilityResult :=
  if c.inputProfiles.any fun p => (profileSatisfied artifact p).isNone then
    { capability := c.id ++ ":" ++ c.version, eligible := true }
  else
    let reasons := (c.inputProfiles.flatMap (·.requires)).filterMap fun req =>
      (requirementSatisfied artifact req).map fun detail =>
        { code := .missingInput, input := req.kind.text, detail := detail }
    { capability := c.id ++ ":" ++ c.version
      eligible := false
      reasons := if reasons = [] then [{ code := .noMatchingProfile }] else reasons }

def matchingCapability (artifact : Artifact) (capabilities : List Capability)
    (requestedCapability : String) : Except CompatibilityResult Capability :=
  match capabilities.find? fun c => c.id = requestedCapability with
  | some c =>
    let res := capabilityEligible artifact c
    if res.eligible then .ok c else .error res
  | none =>
    .error
      { capability := requestedCapability
        eligible := false
        reasons := [{ code := .noMatchingProfile, detail := "capability not advertised" }] }

end Given

end Scintx.Api
