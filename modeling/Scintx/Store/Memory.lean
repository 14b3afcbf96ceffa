/-
Scintx.Store.Memory — the in-process store
(`internal/scintx/memory_store.go`, `store.go`).

Every call takes the store's mutex, so a call is one step: a function of
the store. Rows are filed under their own id and are `Stored`, copies
through JSON; a getter hands out a copy again.

Go's maps have no order. `GetResultsForSubmission` returns the results
along whatever order the loop took, so that order is an argument, any
enumeration of the table.
-/
import Scintx.Api.Clone
import Scintx.Store.JobQueue

namespace Scintx.Store

open Scintx.Lib Scintx.Api

/-- The errors of compare-and-swap calls. -/
inductive StoreError where
  | idempotencyConflict
  | resumeNotDeferred
  | abandonRejected
  deriving DecidableEq, Repr

abbrev SubmissionTable := Table String (Stored Submission) (·.val.id)

structure MemoryStore where
  submissions : SubmissionTable := .empty
  /-- Idempotency key to submission id. -/
  idempotency : GoMap String := ∅
  /-- Idempotency key to request fingerprint. -/
  idemHash : GoMap String := ∅
  jobs : JobTable := .empty
  results : Table String (Stored ProviderResult) (·.val.id) := .empty
  /-- One a submission. -/
  mergedResults : Table String (Stored MergedResult) (·.val.submissionID) := .empty
  decisions : Table String (Stored PolicyDecision) (·.val.id) := .empty
  events : List CloudEvent := []
  artifacts : GoMap (List UInt8) := ∅

/-- The rows after one was written. -/
theorem SubmissionTable.get?_put_of (t : SubmissionTable) (sub : Submission) (id : String) :
    (t.put (.of sub)).get? id = if id = sub.id then some (.of sub) else t.get? id :=
  Table.get?_put t (.of sub) id

theorem SubmissionTable.id_of_get? {t : SubmissionTable} {id : String} {row : Stored Submission}
    (h : t.get? id = some row) : row.val.id = id :=
  t.keyed id row h

namespace MemoryStore

/-! ## Submissions -/

def putSubmission (s : MemoryStore) (sub : Submission) : MemoryStore :=
  { s with submissions := s.submissions.put (.of sub) }

def getSubmission (s : MemoryStore) (id : String) : Option Submission :=
  (s.submissions.get? id).map Stored.copy

/-- The submission a key is bound to, if it is still there. -/
def bound (s : MemoryStore) (key : String) : Option (Stored Submission) :=
  (s.idempotency.lookup key).bind s.submissions.get?

/-- File a submission under a key that is free or dangling. -/
def bindSubmission (s : MemoryStore) (key requestHash : String) (sub : Submission) :
    MemoryStore :=
  let s :=
    if key ≠ "" then
      { s with idempotency := s.idempotency.insert key sub.id
               idemHash := s.idemHash.insert key requestHash }
    else s
  s.putSubmission sub

/-- Returns the stored submission and whether it was created. -/
def putSubmissionIdempotent (s : MemoryStore) (key requestHash : String) (sub : Submission) :
    Except StoreError (Submission × Bool) × MemoryStore :=
  match (if key ≠ "" then s.bound key else none) with
  | some existing =>
    let hash := (s.idemHash.lookup key).getD ""
    if hash ≠ "" ∧ requestHash ≠ "" ∧ hash ≠ requestHash then (.error .idempotencyConflict, s)
    else (.ok (existing.copy, false), s)
  | none => (.ok ((Stored.of sub).copy, true), s.bindSubmission key requestHash sub)

def getSubmissionByIdempotencyKey (s : MemoryStore) (key : String) : Option Submission :=
  if key = "" then none else (s.bound key).map Stored.copy

/-- Only a submission that never started is deleted. -/
def abandonSubmission (s : MemoryStore) (id idempotencyKey : String) :
    Except StoreError Unit × MemoryStore :=
  match s.submissions.get? id with
  | none => (.error .abandonRejected, s)
  | some sub =>
    if sub.val.status ≠ .accepted then (.error .abandonRejected, s)
    else
      let free := idempotencyKey ≠ "" ∧ s.idempotency.lookup idempotencyKey = some id
      (.ok (),
        { s with
          submissions := s.submissions.erase id
          idempotency := if free then s.idempotency.erase idempotencyKey else s.idempotency
          idemHash := if free then s.idemHash.erase idempotencyKey else s.idemHash
          jobs := deleteJob s.jobs id })

def claimResume (s : MemoryStore) (id : String) : Except StoreError Submission × MemoryStore :=
  match s.submissions.get? id with
  | none => (.error .resumeNotDeferred, s)
  | some sub =>
    if sub.val.status ≠ .deferred then (.error .resumeNotDeferred, s)
    else
      let sub := { sub.val with status := .running }
      (.ok (cloneJSON sub), s.putSubmission sub)

/-- Back to deferred after an admission that failed. The completion time
is cleared, the rest of the record stays. -/
def releaseResume (s : MemoryStore) (id : String) : MemoryStore :=
  match s.submissions.get? id with
  | none => s
  | some sub =>
    if sub.val.status ≠ .running then s
    else
      s.putSubmission { sub.val with status := .deferred
                                     completionReason := some .deferred
                                     completedAt := none }

/-! ## Results and decisions -/

def putResult (s : MemoryStore) (r : ProviderResult) : MemoryStore :=
  { s with results := s.results.put (.of r) }

def getResult (s : MemoryStore) (id : String) : Option ProviderResult :=
  (s.results.get? id).map Stored.copy

/-- `order` is the order of the loop over the table. -/
def getResultsForSubmission (s : MemoryStore) (order : List String) (subID : String) :
    List ProviderResult :=
  (s.results.select order (·.val.submissionID = subID)).map Stored.copy

/-- The listed results are the filed ones of the submission. -/
theorem mem_getResultsForSubmission {s : MemoryStore} {order : List String}
    (h : s.results.Enumerates order) {subID : String} {res : ProviderResult} :
    res ∈ s.getResultsForSubmission order subID ↔
      res.submissionID = subID ∧ ∃ row, s.results.get? res.id = some row ∧ row.val = res := by
  simp only [getResultsForSubmission, List.mem_map, Table.mem_select h, Stored.copy_eq,
    decide_eq_true_eq]
  constructor
  · rintro ⟨row, ⟨hget, hsub⟩, rfl⟩
    exact ⟨hsub, row, hget, rfl⟩
  · rintro ⟨hsub, row, hget, rfl⟩
    exact ⟨row, ⟨hget, hsub⟩, rfl⟩

def putMergedResult (s : MemoryStore) (m : MergedResult) : MemoryStore :=
  { s with mergedResults := s.mergedResults.put (.of m) }

def getMergedResultForSubmission (s : MemoryStore) (subID : String) : Option MergedResult :=
  (s.mergedResults.get? subID).map Stored.copy

def putDecision (s : MemoryStore) (d : PolicyDecision) : MemoryStore :=
  { s with decisions := s.decisions.put (.of d) }

def getDecision (s : MemoryStore) (id : String) : Option PolicyDecision :=
  (s.decisions.get? id).map Stored.copy

/-! ## Events and artifacts -/

/-- The data of an event are texts and truth values, which JSON gives
back. -/
def appendEvent (s : MemoryStore) (e : CloudEvent) : MemoryStore :=
  { s with events := s.events ++ [e] }

def putArtifact (s : MemoryStore) (digest : String) (content : List UInt8) : MemoryStore :=
  { s with artifacts := s.artifacts.insert digest content }

def getArtifact (s : MemoryStore) (digest : String) : Option (List UInt8) :=
  s.artifacts.lookup digest

/-! ## The stored status -/

/-- The stored status of a submission. -/
def status (s : MemoryStore) (id : String) : Option SubmissionStatus :=
  (s.submissions.get? id).map (·.val.status)

theorem status_of_submissions {s s' : MemoryStore} (h : s'.submissions = s.submissions)
    (id : String) : s'.status id = s.status id := by
  rw [status, status, h]

theorem status_putSubmission (s : MemoryStore) (sub : Submission) (id : String) :
    (s.putSubmission sub).status id = if id = sub.id then some sub.status else s.status id := by
  rw [status, status, putSubmission, SubmissionTable.get?_put_of]
  split <;> rfl

theorem bindSubmission_submissions (s : MemoryStore) (key hash : String) (sub : Submission) :
    (s.bindSubmission key hash sub).submissions = s.submissions.put (.of sub) := by
  unfold bindSubmission
  split <;> rfl

theorem bindSubmission_jobs (s : MemoryStore) (key hash : String) (sub : Submission) :
    (s.bindSubmission key hash sub).jobs = s.jobs := by
  unfold bindSubmission
  split <;> rfl

theorem status_bindSubmission (s : MemoryStore) (key hash : String) (sub : Submission)
    (id : String) : (s.bindSubmission key hash sub).status id =
      if id = sub.id then some sub.status else s.status id := by
  rw [← status_putSubmission]
  exact status_of_submissions (bindSubmission_submissions s key hash sub) id

/-- The keys after a submission was filed: its own key names it. -/
theorem lookup_bindSubmission (s : MemoryStore) (key hash : String) (sub : Submission)
    (k : String) :
    (s.bindSubmission key hash sub).idempotency.lookup k =
        (if key ≠ "" ∧ k = key then some sub.id else s.idempotency.lookup k) ∧
      (s.bindSubmission key hash sub).idemHash.lookup k =
        (if key ≠ "" ∧ k = key then some hash else s.idemHash.lookup k) := by
  unfold bindSubmission
  by_cases hkey : key ≠ ""
  · by_cases hk : k = key
    · subst hk
      simp [hkey, putSubmission]
    · simp [hkey, hk, putSubmission, Finmap.lookup_insert_of_ne]
  · simp [hkey, putSubmission]

/-- Abandoning a submission frees no key that names another one. -/
theorem lookup_abandonSubmission (s : MemoryStore) {id k y : String} (key : String) (hy : y ≠ id)
    (hk : s.idempotency.lookup k = some y) :
    (s.abandonSubmission id key).2.idempotency.lookup k = s.idempotency.lookup k ∧
      (s.abandonSubmission id key).2.idemHash.lookup k = s.idemHash.lookup k := by
  unfold abandonSubmission
  split
  · exact ⟨rfl, rfl⟩
  · split
    · exact ⟨rfl, rfl⟩
    · by_cases hfree : key ≠ "" ∧ s.idempotency.lookup key = some id
      · have hne : k ≠ key := by
          rintro rfl
          rw [hk] at hfree
          exact hy (Option.some.inj hfree.2)
        simp only [hfree, ne_eq, not_false_eq_true, and_self, if_true,
          Finmap.lookup_erase_ne hne]
      · simp only [hfree, if_false, and_self]

theorem abandonSubmission_rejected {s : MemoryStore} {id key : String}
    (h : s.status id ≠ some .accepted) : (s.abandonSubmission id key).2 = s := by
  unfold abandonSubmission
  split
  · rfl
  · rename_i row hrow
    rw [status, hrow] at h
    rw [if_pos (by simpa using h)]

theorem abandonSubmission_ok {s : MemoryStore} {id key : String}
    (h : s.status id = some .accepted) :
    (s.abandonSubmission id key).2.submissions = s.submissions.erase id ∧
      (s.abandonSubmission id key).2.jobs = deleteJob s.jobs id := by
  rw [status, Option.map_eq_some_iff] at h
  obtain ⟨row, hrow, hs⟩ := h
  unfold abandonSubmission
  rw [hrow]
  simp only [hs, ne_eq, not_true_eq_false, if_false, and_self]

theorem abandonSubmission_isOk {s : MemoryStore} {id : String} (key : String)
    (h : s.status id = some .accepted) : (s.abandonSubmission id key).1.isOk = true := by
  rw [status, Option.map_eq_some_iff] at h
  obtain ⟨row, hrow, hs⟩ := h
  unfold abandonSubmission
  rw [hrow]
  simp only [hs, ne_eq, not_true_eq_false, if_false]
  rfl

theorem status_abandonSubmission (s : MemoryStore) (id key y : String) :
    (s.abandonSubmission id key).2.status y =
      if y = id ∧ s.status id = some .accepted then none else s.status y := by
  by_cases h : s.status id = some .accepted
  · rw [status, (abandonSubmission_ok h).1, Table.get?_erase]
    by_cases hy : y = id
    · simp only [hy, h, if_true, and_self, Option.map_none]
    · simp only [hy, if_false, false_and]
      rfl
  · rw [abandonSubmission_rejected h, if_neg (fun hc => h hc.2)]

/-- A claim that succeeds found the submission deferred and only marks it
running. -/
theorem claimResume_ok {s s' : MemoryStore} {id : String} {sub : Submission}
    (h : s.claimResume id = (.ok sub, s')) :
    s.status id = some .deferred ∧ ∃ row, row.id = id ∧ row.status = .running ∧
      s' = s.putSubmission row := by
  unfold claimResume at h
  split at h
  · cases h
  · rename_i row hrow
    split at h
    · cases h
    · rename_i hs
      cases h
      refine ⟨?_, { row.val with status := .running }, SubmissionTable.id_of_get? hrow, rfl, rfl⟩
      rw [status, hrow]
      simpa using hs

theorem releaseResume_cases (s : MemoryStore) (id : String) :
    (s.status id ≠ some .running ∧ s.releaseResume id = s) ∨
      (s.status id = some .running ∧ ∃ row, row.id = id ∧ row.status = .deferred ∧
        s.releaseResume id = s.putSubmission row) := by
  unfold releaseResume
  split
  · rename_i hrow
    exact .inl ⟨by rw [status, hrow]; simp, rfl⟩
  · rename_i row hrow
    rw [status, hrow]
    split
    · rename_i hs
      exact .inl ⟨by simpa using hs, rfl⟩
    · rename_i hs
      exact .inr ⟨by simpa using hs,
        { row.val with status := .deferred, completionReason := some .deferred
                       completedAt := none },
        SubmissionTable.id_of_get? hrow, rfl, rfl⟩

theorem status_releaseResume (s : MemoryStore) (id y : String) :
    (s.releaseResume id).status y =
      if y = id ∧ s.status id = some .running then some .deferred else s.status y := by
  rcases s.releaseResume_cases id with ⟨hs, h⟩ | ⟨hs, row, rfl, hrow, h⟩
  · rw [h, if_neg (fun hc => hs hc.2)]
  · rw [h, status_putSubmission, hrow]
    by_cases hy : y = row.id <;> simp [hy, hs]

end MemoryStore

end Scintx.Store
