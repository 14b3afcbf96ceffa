/-
Scintx.Store.CopyLaw — what the setters of the in-process store file
(`internal/scintx/memory_store.go`, `api/clone.go`).

`Store.Memory` is about the fields that other functions read. Here the
four tables hold records with ALL their fields, since a copy through JSON
can fail at any of them. A setter never reports that: it files the zero
value, under the id `""`, and returns nil. So a record can be read back
exactly if JSON keeps it (`puts_store_iff`).

On the records of `Api.Types` the two stores do the same
(`answersAlike_of_puts`).
-/
import Scintx.Api.Embedding
import Scintx.Store.Memory

namespace Scintx.Store

open Scintx.Lib Scintx.Api

/-- Copies of records of one type, each filed under a field of its own. -/
abbrev Rows (α : Type) [CloneJSON α] (key : α → Record.Text) :=
  Table Record.Text (Stored α) fun row => key row.val

structure RecordStore where
  submissions : Rows Record.Submission (·.id) := .empty
  results : Rows Record.ProviderResult (·.id) := .empty
  /-- One a submission. -/
  mergedResults : Rows Record.MergedResult (·.submissionID) := .empty
  decisions : Rows Record.PolicyDecision (·.id) := .empty

/-! ## Setters and getters

A setter takes a pointer; a nil one is passed over. -/

section Rows

variable {α : Type} [CloneJSON α] {key : α → Record.Text}

def putRow (t : Rows α key) : Option α → Except String Unit × Rows α key
  | none => (.ok (), t)
  | some v => (.ok (), t.put (.of v))

def getRow (t : Rows α key) (k : Record.Text) : Option α :=
  (t.get? k).map Stored.copy

theorem getRow_putRow (t : Rows α key) (v : α) (k : Record.Text) :
    getRow (putRow t (some v)).2 k =
      if k = key (cloneJSON v) then some (cloneJSON v) else getRow t k := by
  have hput : (Table.put t (.of v)).get? k =
      if k = key (cloneJSON v) then some (.of v) else t.get? k := Table.get?_put t (.of v) k
  rw [getRow, putRow, hput]
  split
  · rw [Option.map_some, Stored.copy_eq, Stored.val_of]
  · rfl

/-- What was filed last can be read back just if it is its own copy: all
that is ever read is. -/
theorem getRow_putRow_iff (t : Rows α key) (v : α) :
    getRow (putRow t (some v)).2 (key v) = some v ↔ cloneJSON v = v := by
  constructor
  · intro h
    obtain ⟨row, -, hrow⟩ := Option.map_eq_some_iff.mp h
    rw [Stored.copy_eq] at hrow
    exact hrow ▸ row.clean
  · intro h
    rw [getRow_putRow, h, if_pos rfl]

end Rows

namespace RecordStore

def putSubmission (s : RecordStore) (sub : Option Record.Submission) :
    Except String Unit × RecordStore :=
  ((putRow s.submissions sub).1, { s with submissions := (putRow s.submissions sub).2 })

def getSubmission (s : RecordStore) (id : Record.Text) : Option Record.Submission :=
  getRow s.submissions id

def putResult (s : RecordStore) (r : Option Record.ProviderResult) :
    Except String Unit × RecordStore :=
  ((putRow s.results r).1, { s with results := (putRow s.results r).2 })

def getResult (s : RecordStore) (id : Record.Text) : Option Record.ProviderResult :=
  getRow s.results id

/-- `order` is the order of the loop over the table. -/
def getResultsForSubmission (s : RecordStore) (order : List Record.Text) (subID : Record.Text) :
    List Record.ProviderResult :=
  (s.results.select order (·.val.submissionID = subID)).map Stored.copy

def putMergedResult (s : RecordStore) (m : Option Record.MergedResult) :
    Except String Unit × RecordStore :=
  ((putRow s.mergedResults m).1, { s with mergedResults := (putRow s.mergedResults m).2 })

def getMergedResultForSubmission (s : RecordStore) (subID : Record.Text) :
    Option Record.MergedResult :=
  getRow s.mergedResults subID

def putDecision (s : RecordStore) (d : Option Record.PolicyDecision) :
    Except String Unit × RecordStore :=
  ((putRow s.decisions d).1, { s with decisions := (putRow s.decisions d).2 })

def getDecision (s : RecordStore) (id : Record.Text) : Option Record.PolicyDecision :=
  getRow s.decisions id

/-! ## The law of a setter -/

/-- What a caller counts on: an error and the store as it was, or no error
and the record is there. -/
def StoresOrRefuses (s : RecordStore) (answer : Except String Unit × RecordStore)
    (there : RecordStore → Prop) : Prop :=
  (∃ e, answer = (.error e, s)) ∨ answer.1 = .ok () ∧ there answer.2

/-- A result is there: by its id and among those of its submission. -/
def HasResult (r : Record.ProviderResult) (s : RecordStore) : Prop :=
  s.getResult r.id = some r ∧
    ∀ order, s.results.Enumerates order → r ∈ s.getResultsForSubmission order r.submissionID

theorem storesOrRefuses_iff {s : RecordStore} {answer : Except String Unit × RecordStore}
    {there : RecordStore → Prop} (h : answer.1 = .ok ()) :
    StoresOrRefuses s answer there ↔ there answer.2 := by
  constructor
  · rintro (⟨e, rfl⟩ | ⟨-, hthere⟩)
    · cases h
    · exact hthere
  · exact fun hthere => .inr ⟨h, hthere⟩

/-- A result that can be read by its id is listed. -/
theorem hasResult_iff {s : RecordStore} {r : Record.ProviderResult} :
    HasResult r s ↔ s.getResult r.id = some r := by
  refine and_iff_left_of_imp fun h order horder => ?_
  obtain ⟨row, hrow, hcopy⟩ := Option.map_eq_some_iff.mp h
  refine List.mem_map.mpr ⟨row, (Table.mem_select horder).mpr ?_, hcopy⟩
  rw [Stored.copy_eq] at hcopy
  rw [hcopy]
  exact ⟨hrow, decide_eq_true rfl⟩

/-- No setter ever refuses, so its law holds for exactly the records that
JSON keeps, and this in every store. -/
theorem puts_store_iff (s : RecordStore) (r : Record.ProviderResult) (sub : Record.Submission)
    (d : Record.PolicyDecision) (m : Record.MergedResult) :
    (StoresOrRefuses s (s.putResult (some r)) (HasResult r) ↔ JsonCopy.Kept r) ∧
    (StoresOrRefuses s (s.putSubmission (some sub))
      (fun s' => s'.getSubmission sub.id = some sub) ↔ JsonCopy.Kept sub) ∧
    (StoresOrRefuses s (s.putDecision (some d))
      (fun s' => s'.getDecision d.id = some d) ↔ JsonCopy.Kept d) ∧
    (StoresOrRefuses s (s.putMergedResult (some m))
      (fun s' => s'.getMergedResultForSubmission m.submissionID = some m) ↔ JsonCopy.Kept m) := by
  refine ⟨?_, ?_, ?_, ?_⟩
  · rw [storesOrRefuses_iff rfl, hasResult_iff]
    exact (getRow_putRow_iff s.results r).trans Record.ProviderResult.cloneJSON_eq_iff
  · rw [storesOrRefuses_iff rfl]
    exact (getRow_putRow_iff s.submissions sub).trans Record.Submission.cloneJSON_eq_iff
  · rw [storesOrRefuses_iff rfl]
    exact (getRow_putRow_iff s.decisions d).trans Record.PolicyDecision.cloneJSON_eq_iff
  · rw [storesOrRefuses_iff rfl]
    exact (getRow_putRow_iff s.mergedResults m).trans Record.MergedResult.cloneJSON_eq_iff

/-- A result of the OSV provider for a record whose CVSS score reads
`NaN`. -/
def nanResult : Record.ProviderResult where
  id := .same "res_1"
  submissionID := .same "sub_1"
  provider := { id := .same "osv" }
  execution := { status := .same "completed" }
  findings :=
    [{ id := .same "OSV-1", type := .same "vulnerability"
       severity := [{ scheme := .same "CVSS", version := .same "3.x", score := some .nan
                      vector := .same "NaN", source := .same "provider" }] }]

/-- It is filed as a row without id, submission or finding, and the call
returns nil. -/
theorem nan_result_lost :
    let s := (putResult {} (some nanResult)).2
    (putResult {} (some nanResult)).1 = .ok () ∧
      s.getResult nanResult.id = none ∧ s.results.Enumerates [.same ""] ∧
      s.getResultsForSubmission [.same ""] nanResult.submissionID = [] ∧
      (s.getResult (.same "")).map (·.findings) = some [] := by
  refine ⟨rfl, rfl, by decide, rfl, rfl⟩

end RecordStore

/-! ## The store of `Store.Memory` -/

/-- What is filed under a text. -/
def atText {α : Type} (rows : String → Option α) : Record.Text → Option α
  | .same id => rows id
  | .other _ => none

section Embedding

variable {α β : Type} [CloneJSON α] [CloneJSON β] {key : α → String} {key' : β → Record.Text}

/-- The rows of one table are those of the other, record for record. -/
def TableEmbeds (record : α → β) (t : Table String (Stored α) fun row => key row.val)
    (t' : Rows β key') : Prop :=
  ∀ id, getRow t' id = atText (fun id => (t.get? id).map fun row => record row.val) id

theorem TableEmbeds.put {record : α → β} {t : Table String (Stored α) fun row => key row.val}
    {t' : Rows β key'} (h : TableEmbeds record t t') (hkey : ∀ v, key' (record v) = .same (key v))
    {v : α} (hclone : cloneJSON (record v) = record (cloneJSON v)) :
    TableEmbeds record (t.put (.of v)) (putRow t' (some (record v))).2 := by
  intro id
  rw [getRow_putRow, hclone, hkey, h id]
  cases id with
  | other back => rfl
  | same id =>
    have hput : (t.put (.of v)).get? id =
        if id = key (cloneJSON v) then some (.of v) else t.get? id := Table.get?_put t (.of v) id
    rw [atText, atText, hput]
    by_cases heq : id = key (cloneJSON v)
    · rw [if_pos heq, if_pos (congrArg Leaf.same heq), Option.map_some, Stored.val_of]
    · rw [if_neg heq, if_neg fun h => heq (Leaf.same.inj h)]

/-- A getter hands out the same record. -/
theorem TableEmbeds.get {record : α → β} {t : Table String (Stored α) fun row => key row.val}
    {t' : Rows β key'} (h : TableEmbeds record t t') (id : String) :
    getRow t' (.same id) = ((t.get? id).map Stored.copy).map record := by
  rw [h, atText, Option.map_map]
  congr 1
  funext row
  rw [Function.comp_apply, Stored.copy_eq]

end Embedding

/-- A store whose records have only the fields of `Api.Types`. -/
structure Embeds (s : MemoryStore) (t : RecordStore) : Prop where
  submissions : TableEmbeds Submission.record s.submissions t.submissions
  results : TableEmbeds ProviderResult.record s.results t.results
  mergedResults : TableEmbeds MergedResult.record s.mergedResults t.mergedResults
  decisions : TableEmbeds PolicyDecision.record s.decisions t.decisions

/-- What the getters of the two stores hand out under the same id. -/
def AnswersAlike (s : MemoryStore) (t : RecordStore) : Prop :=
  ∀ id : String,
    t.getSubmission (.same id) = (s.getSubmission id).map Submission.record ∧
      t.getResult (.same id) = (s.getResult id).map ProviderResult.record ∧
      t.getMergedResultForSubmission (.same id) =
        (s.getMergedResultForSubmission id).map MergedResult.record ∧
      t.getDecision (.same id) = (s.getDecision id).map PolicyDecision.record

/-- A call of one of the four setters. -/
inductive PutCall where
  | submission (sub : Submission)
  | result (r : ProviderResult)
  | mergedResult (m : MergedResult)
  | decision (d : PolicyDecision)

namespace PutCall

def onMemory (s : MemoryStore) : PutCall → MemoryStore
  | .submission sub => s.putSubmission sub
  | .result r => s.putResult r
  | .mergedResult m => s.putMergedResult m
  | .decision d => s.putDecision d

def onRecords (t : RecordStore) : PutCall → RecordStore
  | .submission sub => (t.putSubmission (some sub.record)).2
  | .result r => (t.putResult (some r.record)).2
  | .mergedResult m => (t.putMergedResult (some m.record)).2
  | .decision d => (t.putDecision (some d.record)).2

def instants : PutCall → List Time
  | .submission sub => sub.instants
  | .result r => r.instants
  | .mergedResult m => m.instants
  | .decision d => d.instants

end PutCall

namespace Embeds

variable {s : MemoryStore} {t : RecordStore}

/-- New stores correspond. -/
theorem empty : Embeds {} {} := by
  constructor <;> (intro id; cases id <;> rfl)

theorem put (h : Embeds s t) {call : PutCall} (hdated : ∀ t ∈ call.instants, Dated t) :
    Embeds (call.onMemory s) (call.onRecords t) := by
  cases call with
  | submission sub =>
    have hput := h.submissions.put (fun _ => rfl) (Submission.cloneJSON_record hdated)
    exact { h with submissions := hput }
  | result r =>
    have hput := h.results.put (fun _ => rfl) (ProviderResult.cloneJSON_record hdated)
    exact { h with results := hput }
  | mergedResult m =>
    have hput := h.mergedResults.put (fun _ => rfl) (MergedResult.cloneJSON_record hdated)
    exact { h with mergedResults := hput }
  | decision d =>
    have hput := h.decisions.put (fun _ => rfl) (PolicyDecision.cloneJSON_record hdated)
    exact { h with decisions := hput }

theorem puts (h : Embeds s t) {calls : List PutCall}
    (hdated : ∀ call ∈ calls, ∀ t ∈ call.instants, Dated t) :
    Embeds (calls.foldl PutCall.onMemory s) (calls.foldl PutCall.onRecords t) := by
  induction calls generalizing s t with
  | nil => exact h
  | cons call calls ih =>
    exact ih (h.put (hdated call (List.mem_cons_self ..)))
      fun c hc => hdated c (List.mem_cons_of_mem _ hc)

theorem answersAlike (h : Embeds s t) : AnswersAlike s t :=
  fun id => ⟨h.submissions.get id, h.results.get id, h.mergedResults.get id, h.decisions.get id⟩

end Embeds

/-- After any calls with dated records the two stores answer alike. -/
theorem answersAlike_of_puts {calls : List PutCall}
    (hdated : ∀ call ∈ calls, ∀ t ∈ call.instants, Dated t) :
    AnswersAlike (calls.foldl PutCall.onMemory {}) (calls.foldl PutCall.onRecords {}) :=
  (Embeds.empty.puts hdated).answersAlike

end Scintx.Store
