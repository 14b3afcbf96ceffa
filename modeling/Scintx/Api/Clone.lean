/-
Scintx.Api.Clone — copies through JSON (`api/clone.go`).

The memory store hands out and takes in DEEP COPIES, made by encoding a
value and decoding the text. Such a copy is not always the value: what
has no JSON (a NaN or an infinite score) is silently replaced by the
zero value of its type, and a field that JSON skips (the loaded content
of an artifact) is dropped. `cloneJSON` is the copy, type by type;
`Stored` is a value that equals its copies, which is all that ever gets
into the store.

Instants are taken to lie in the years JSON can write.
-/
import Scintx.Api.Types

namespace Scintx.Api

open Scintx.Lib

/-- Types whose values are copied through JSON. -/
class CloneJSON (α : Type) where
  cloneJSON : α → α
  /-- A copy of a copy is that copy. -/
  cloneJSON_cloneJSON : ∀ v, cloneJSON (cloneJSON v) = cloneJSON v

export CloneJSON (cloneJSON cloneJSON_cloneJSON)

/-- A value that its copies are equal to. -/
@[ext] structure Stored (α : Type) [CloneJSON α] where
  val : α
  clean : cloneJSON val = val

namespace Stored

variable {α : Type} [CloneJSON α]

/-- The copy a store files. -/
def of (v : α) : Stored α := ⟨cloneJSON v, cloneJSON_cloneJSON v⟩

/-- The copy a store hands out. -/
def copy (s : Stored α) : α := cloneJSON s.val

@[simp] theorem copy_eq (s : Stored α) : s.copy = s.val := s.clean

@[simp] theorem val_of (v : α) : (of v).val = cloneJSON v := rfl

instance [DecidableEq α] : DecidableEq (Stored α) := fun s t =>
  decidable_of_iff (s.val = t.val) Stored.ext_iff.symm

end Stored

/-! ## Submissions -/

/-- `Artifact.Content` has no JSON field. -/
instance : CloneJSON Submission where
  cloneJSON s := { s with artifact := { s.artifact with content := [] } }
  cloneJSON_cloneJSON _ := rfl

/-! ## Records with scores

A record with a score that is not a finite number has no JSON. -/

/-- Every score of the list is a finite number. -/
def finiteScores (scores : List (Option Float64)) : Bool :=
  scores.all fun score => score.all Float64.isFinite

/-- The copy of a record that may have no JSON. -/
def cloneOr {α : Type} (encodable : α → Bool) (zero v : α) : α :=
  if encodable v then v else zero

theorem cloneOr_cloneOr {α : Type} {encodable : α → Bool} {zero : α}
    (hz : encodable zero = true) (v : α) :
    cloneOr encodable zero (cloneOr encodable zero v) = cloneOr encodable zero v := by
  unfold cloneOr
  by_cases hv : encodable v = true <;> simp [hv, hz]

def ProviderResult.encodable (r : ProviderResult) : Bool :=
  finiteScores ((r.findings.flatMap (·.severity)).map (·.score))

def ProviderResult.zero : ProviderResult where
  id := ""
  execution := { status := .other "" (by decide) }

instance : CloneJSON ProviderResult where
  cloneJSON := cloneOr ProviderResult.encodable ProviderResult.zero
  cloneJSON_cloneJSON := cloneOr_cloneOr rfl

def MergedResult.encodable (m : MergedResult) : Bool :=
  finiteScores ((m.findings.flatMap (·.severity)).map (·.score))

def MergedResult.zero : MergedResult where
  id := ""
  submissionID := ""
  inputResultIDs := []
  findings := []
  mergedAt := 0

instance : CloneJSON MergedResult where
  cloneJSON := cloneOr MergedResult.encodable MergedResult.zero
  cloneJSON_cloneJSON := cloneOr_cloneOr rfl

def PolicyDecision.encodable (d : PolicyDecision) : Bool :=
  finiteScores ((d.reasons.filterMap (·.severityRef)).map (·.score))

def PolicyDecision.zero : PolicyDecision where
  id := ""
  submissionID := ""
  decision := .other "" (by decide)
  policy := { id := "", version := "" }
  evaluatedAt := 0
  inputResultIDs := []
  reasons := []

instance : CloneJSON PolicyDecision where
  cloneJSON := cloneOr PolicyDecision.encodable PolicyDecision.zero
  cloneJSON_cloneJSON := cloneOr_cloneOr rfl

theorem cloneJSON_of_encodable {r : ProviderResult} (h : r.encodable = true) :
    cloneJSON r = r :=
  if_pos h

/-- What is filed has JSON. -/
theorem Stored.encodable (s : Stored ProviderResult) : s.val.encodable = true := by
  cases h : s.val.encodable with
  | true => rfl
  | false =>
    have hzero : s.val = ProviderResult.zero := s.clean.symm.trans (if_neg (by simp [h]))
    rw [hzero] at h
    cases h

theorem cloneJSON_of_not_encodable {r : ProviderResult} (h : r.encodable = false) :
    cloneJSON r = ProviderResult.zero :=
  if_neg (by simp [h])

end Scintx.Api
