/-
Scintx.Store.SqlSubmissionsTheorems — the SQL store answers as the memory
store does.

The two stores take different ways where a key is bound to a submission
that is not there: the memory store binds the key again, the SQL store
gives up. So they agree only because that never happens. `KeysStored` is
why: a bound key names a stored submission that was created under that
very key, hence abandoning the submission under its key takes the binding
with it. `SameSubmissions` is the simulation, one lemma a call.
-/
import Scintx.Store.SqlSubmissions

namespace Scintx.Store

open Scintx.Lib Scintx.Lib.Transaction Scintx.Api

/-! ## What each transaction does -/

namespace SQLStore

variable {db : SqlDb} {key requestHash id : String} {sub : Submission}

theorem run_getSubmission (db : SqlDb) (id : String) :
    (getSubmission id).run db = (.ok ((db (.submission id)).map (·.val)), db) := rfl

theorem run_getByKey_none (hkey : key ≠ "") (h : db (.idempotency key) = none) :
    (getSubmissionByIdempotencyKey key).run db = (.ok none, db) := by
  unfold getSubmissionByIdempotencyKey
  simp only [hkey, if_false, Tx.run, Tx.runFrom, Stmt.reply, Stmt.write, h]
  rfl

theorem run_getByKey_some (hkey : key ≠ "") {row : IdempotencyRow}
    (h : db (.idempotency key) = some row) :
    (getSubmissionByIdempotencyKey key).run db =
      (.ok ((db (.submission row.submissionID)).map (·.val)), db) := by
  unfold getSubmissionByIdempotencyKey
  simp only [hkey, if_false, Tx.run, Tx.runFrom, Stmt.reply, Stmt.write, h]
  rfl

/-- A key that is bound to a stored submission. -/
theorem run_put_bound (hkey : key ≠ "") {row : IdempotencyRow} {body : Stored Submission}
    (hrow : db (.idempotency key) = some row)
    (hbody : db (.submission row.submissionID) = some body) :
    (putSubmissionIdempotent key requestHash sub).run db =
      if conflicts row.requestHash requestHash then (.error (.store .idempotencyConflict), db)
      else (.ok (body.val, false), db) := by
  unfold putSubmissionIdempotent replay
  simp only [hkey, if_false, Tx.run, Tx.runFrom, Stmt.reply, Stmt.write, hrow]
  split
  · rfl
  · simp only [loadExisting, Tx.runFrom, Stmt.reply, Stmt.write, Option.toList_none,
      Db.writeAll_nil, hbody]

/-- A key that is free. -/
theorem run_put_free (hkey : key ≠ "") (h : db (.idempotency key) = none) :
    (putSubmissionIdempotent key requestHash sub).run db =
      (.ok (cloneJSON sub, true), (db.write ⟨.submission sub.id, some (.of sub)⟩).write
        ⟨.idempotency key, some ⟨sub.id, requestHash⟩⟩) := by
  have hfree : db.write ⟨.submission sub.id, some (.of sub)⟩ (.idempotency key) = none := by
    rw [Db.write_ne _ _ (by simp), h]
  unfold putSubmissionIdempotent storeNew
  simp only [hkey, if_false, Tx.run, Tx.runFrom, Stmt.reply, Stmt.write, h, bindKey,
    Option.toList_none, Option.toList_some, Db.writeAll_nil, Db.writeAll_cons, hfree,
    Option.isNone_none, if_true, created]

theorem run_put_unkeyed :
    (putSubmissionIdempotent "" requestHash sub).run db =
      (.ok (cloneJSON sub, true), db.write ⟨.submission sub.id, some (.of sub)⟩) := rfl

/-- A submission that is not there, or has started. -/
theorem run_abandon_rejected (h : ∀ body ∈ db (.submission id), body.val.status ≠ .accepted) :
    (abandonSubmission id key).run db = (.error (.store .abandonRejected), db) := by
  unfold abandonSubmission
  simp only [Tx.run, Tx.runFrom, Stmt.reply, Stmt.write]
  cases hget : db (.submission id) with
  | none => rfl
  | some body =>
    have hstatus := h body hget
    simp only [hstatus, ne_eq, not_false_eq_true, if_true]
    rfl

theorem runFrom_deleteJobs (db₀ db : SqlDb) (id : String) :
    ∃ db', (deleteJobs id).runFrom db₀ db = (.ok (), db') ∧
      (∀ y, db' (.submission y) = db (.submission y)) ∧
      ∀ k, db' (.idempotency k) = db (.idempotency k) := by
  refine ⟨_, rfl, ?_, ?_⟩
  · intro y
    exact Db.delete_ne db _ (by simp)
  · intro k
    exact Db.delete_ne db _ (by simp)

theorem runFrom_deleteKey (db₀ db : SqlDb) (id key : String) :
    ∃ db', (deleteKey id key).runFrom db₀ db = (.ok (), db') ∧
      (∀ y, db' (.submission y) = db (.submission y)) ∧
      ∀ k, db' (.idempotency k) =
        if key ≠ "" ∧ k = key ∧ (db (.idempotency k)).any (·.submissionID = id) then none
        else db (.idempotency k) := by
  unfold deleteKey
  by_cases hkey : key = ""
  · obtain ⟨db', hrun, hsub, hkeys⟩ := runFrom_deleteJobs db₀ db id
    refine ⟨db', by rw [if_pos hkey, hrun], hsub, ?_⟩
    intro k
    rw [hkeys, if_neg (fun h => h.1 hkey)]
  · let q : Stmt RowKey RowType := .deleteIf (.idempotency key) fun row => row.submissionID = id
    obtain ⟨db', hrun, hsub, hkeys⟩ :=
      runFrom_deleteJobs db₀ (db.writeAll (q.write db).toList) id
    refine ⟨db', by rw [if_neg hkey]; exact hrun, ?_, ?_⟩
    · intro y
      rw [hsub]
      exact Db.delete_ne db _ (by simp)
    · intro k
      rw [hkeys]
      by_cases hk : k = key
      · subst hk
        simp only [ne_eq, hkey, not_false_eq_true, true_and]
        exact Db.delete_self db _
      · rw [if_neg (fun h => hk h.2.1)]
        exact Db.delete_ne db _ (by simpa using hk)

/-- The row goes, and the key if it names the submission. -/
theorem run_abandon_ok {body : Stored Submission} (h : db (.submission id) = some body)
    (hstatus : body.val.status = .accepted) :
    ∃ db', (abandonSubmission id key).run db = (.ok (), db') ∧
      (∀ y, db' (.submission y) = if y = id then none else db (.submission y)) ∧
      ∀ k, db' (.idempotency k) =
        if key ≠ "" ∧ k = key ∧ (db (.idempotency k)).any (·.submissionID = id) then none
        else db (.idempotency k) := by
  let q : Stmt RowKey RowType := .deleteIf (.submission id) fun _ => true
  have haffected : q.reply db = true := by
    change (db (.submission id)).any (fun _ => true) = true
    rw [h]
    rfl
  obtain ⟨db', hrun, hsub, hkeys⟩ :=
    runFrom_deleteKey db (db.writeAll (q.write db).toList) id key
  refine ⟨db', ?_, ?_, ?_⟩
  · simp only [abandonSubmission, Tx.run, Tx.runFrom]
    change Tx.runFrom db _ db = _
    simp only [Stmt.reply, h, hstatus, ne_eq, not_true_eq_false, if_false, Tx.runFrom]
    rw [if_pos (by rfl)]
    exact hrun
  · intro y
    rw [hsub]
    by_cases hy : y = id
    · subst hy
      rw [if_pos rfl]
      refine (Db.delete_self db _).trans (if_pos haffected)
    · rw [if_neg hy]
      exact Db.delete_ne db _ (by simpa using hy)
  · intro k
    rw [hkeys]
    have hkey : db.writeAll (q.write db).toList (.idempotency k) = db (.idempotency k) :=
      Db.delete_ne db _ (by simp)
    rw [hkey]

theorem runFrom_selectBody {α : Type} (d : Dialect) (db₀ db : SqlDb) (id : String)
    (next : Option (Stored Submission) → Program α) :
    (selectBody d id next).runFrom db₀ db = (next (db (.submission id))).runFrom db₀ db := by
  cases d <;> rfl

/-- The row is changed by `f` if its status is `st`; `kept` is the answer
of a call that changes nothing. -/
def guardedUpdate {α : Type} (d : Dialect) (id : String) (st : SubmissionStatus)
    (kept : Except SqlError α) (f : Submission → Submission) (answer : Submission → α) :
    Program α :=
  selectBody d id fun
    | none => .rollback kept
    | some body =>
      if body.val.status ≠ st then .rollback kept
      else
        .exec (.update (.submission id) (.of (f body.val))) fun _ =>
          .commit (.ok (answer (f body.val)))

section Guarded

variable {α : Type} (d : Dialect) {st : SubmissionStatus} {kept : Except SqlError α}
  {f : Submission → Submission} {answer : Submission → α}

theorem run_guardedUpdate_kept (h : ∀ body ∈ db (.submission id), body.val.status ≠ st) :
    (guardedUpdate d id st kept f answer).run db = (kept, db) := by
  rw [Tx.run, guardedUpdate, runFrom_selectBody]
  cases hget : db (.submission id) with
  | none => rfl
  | some body =>
    have hstatus := h body hget
    simp only [hstatus, ne_eq, not_false_eq_true, if_true]
    rfl

theorem run_guardedUpdate_ok {body : Stored Submission} (h : db (.submission id) = some body)
    (hstatus : body.val.status = st) :
    (guardedUpdate d id st kept f answer).run db =
      (.ok (answer (f body.val)), db.write ⟨.submission id, some (.of (f body.val))⟩) := by
  rw [Tx.run, guardedUpdate, runFrom_selectBody, h]
  simp only [hstatus, ne_eq, not_true_eq_false, if_false, Tx.runFrom, Stmt.write, h,
    Option.isSome_some, if_true, Option.toList_some]
  rfl

theorem claimResume_eq (id : String) :
    claimResume d id = guardedUpdate d id .deferred (.error (.store .resumeNotDeferred))
      (fun sub => { sub with status := .running }) fun sub => sub :=
  rfl

theorem releaseResume_eq (id : String) :
    releaseResume d id = guardedUpdate d id .running (.ok ())
      (fun sub => { sub with status := .deferred, completionReason := some .deferred
                             completedAt := none }) fun _ => () :=
  rfl

end Guarded

end SQLStore

/-! ## The simulation -/

/-- What is stored stays clean under another status. -/
theorem Stored.clean_with_status (row : Stored Submission) (st : SubmissionStatus) :
    cloneJSON { row.val with status := st } = { row.val with status := st } := by
  have hclean := row.clean
  exact congrArg (fun sub : Submission => { sub with status := st }) hclean

/-- The tables of both stores have the same rows. -/
structure SameSubmissions (m : MemoryStore) (db : SqlDb) : Prop where
  submissions : ∀ id, db (.submission id) = m.submissions.get? id
  keys : ∀ key, db (.idempotency key) =
    (m.idempotency.lookup key).map fun id => ⟨id, (m.idemHash.lookup key).getD ""⟩

/-- A bound key names a stored submission that was created under it. -/
def KeysStored (m : MemoryStore) (createdUnder : GoMap String) : Prop :=
  ∀ key id, m.idempotency.lookup key = some id →
    key ≠ "" ∧ (m.submissions.get? id).isSome ∧ createdUnder.lookup id = some key

/-- The reply is the same, and so are the tables after the call. -/
def Agree (memory : SubmissionReply × MemoryStore) (sql : SubmissionReply × SqlDb) : Prop :=
  sql.1 = memory.1 ∧ SameSubmissions memory.2 sql.2

namespace SameSubmissions

variable {m : MemoryStore} {db : SqlDb}

/-- One row of `submissions` is written in both stores. -/
theorem write (h : SameSubmissions m db) (sub : Submission) :
    SameSubmissions (m.putSubmission sub) (db.write ⟨.submission sub.id, some (.of sub)⟩) := by
  refine ⟨?_, ?_⟩
  · intro id
    rw [MemoryStore.putSubmission, SubmissionTable.get?_put_of]
    by_cases hid : id = sub.id
    · subst hid
      rw [if_pos rfl]
      exact Db.write_self ..
    · rw [if_neg hid, Db.write_ne _ _ (by simpa using hid), h.submissions]
  · intro key
    rw [Db.write_ne _ _ (by simp), h.keys]
    rfl

/-- A submission is filed under a key. -/
theorem bind (h : SameSubmissions m db) {key : String} (hkey : key ≠ "") (hash : String)
    (sub : Submission) :
    SameSubmissions (m.bindSubmission key hash sub)
      ((db.write ⟨.submission sub.id, some (.of sub)⟩).write
        ⟨.idempotency key, some ⟨sub.id, hash⟩⟩) := by
  refine ⟨?_, ?_⟩
  · intro id
    rw [Db.write_ne _ _ (by simp), (h.write sub).submissions,
      MemoryStore.bindSubmission_submissions]
    rfl
  · intro k
    obtain ⟨hlookup, hhash⟩ := m.lookup_bindSubmission key hash sub k
    rw [hlookup, hhash]
    by_cases hk : k = key
    · subst hk
      rw [if_pos ⟨hkey, rfl⟩, if_pos ⟨hkey, rfl⟩]
      exact Db.write_self ..
    · rw [if_neg (fun hc => hk hc.2), if_neg (fun hc => hk hc.2),
        Db.write_ne _ _ (by simpa using hk), Db.write_ne _ _ (by simp), h.keys]

theorem putIdempotent (h : SameSubmissions m db) {createdUnder : GoMap String}
    (hstored : KeysStored m createdUnder) (d : Dialect) (key hash : String) (sub : Submission) :
    Agree ((SubmissionCall.putIdempotent key hash sub).onMemory m)
      ((SubmissionCall.putIdempotent key hash sub).onSQL d db) := by
  unfold Agree
  simp only [SubmissionCall.onMemory, SubmissionCall.onSQL, SubmissionCall.reply,
    MemoryStore.putSubmissionIdempotent]
  by_cases hkey : key = ""
  · subst hkey
    rw [SQLStore.run_put_unkeyed]
    simp only [ne_eq, not_true_eq_false, if_false, Stored.copy_eq, Stored.val_of, memoryError]
    exact ⟨trivial, h.write sub⟩
  · have hrow := h.keys key
    simp only [ne_eq, hkey, not_false_eq_true, if_true, MemoryStore.bound]
    cases hlookup : m.idempotency.lookup key with
    | none =>
      rw [hlookup] at hrow
      rw [SQLStore.run_put_free hkey hrow]
      simp only [Option.bind_none, Stored.copy_eq, Stored.val_of, memoryError]
      exact ⟨trivial, h.bind hkey hash sub⟩
    | some id =>
      -- the submission is there, so neither store gets to its own repair
      obtain ⟨-, hsome, -⟩ := hstored key id hlookup
      obtain ⟨body, hbody⟩ := Option.isSome_iff_exists.mp hsome
      rw [hlookup] at hrow
      rw [SQLStore.run_put_bound hkey hrow ((h.submissions id).trans hbody)]
      simp only [Option.bind_some, hbody, Stored.copy_eq]
      by_cases hconflict : SQLStore.conflicts ((m.idemHash.lookup key).getD "") hash
      · rw [if_pos hconflict]
        unfold SQLStore.conflicts at hconflict
        rw [if_pos hconflict]
        exact ⟨rfl, h⟩
      · rw [if_neg hconflict]
        unfold SQLStore.conflicts at hconflict
        rw [if_neg hconflict]
        exact ⟨rfl, h⟩

theorem getByKey (h : SameSubmissions m db) (d : Dialect) (key : String) :
    Agree ((SubmissionCall.getByKey key).onMemory m)
      ((SubmissionCall.getByKey key).onSQL d db) := by
  unfold Agree
  simp only [SubmissionCall.onMemory, SubmissionCall.onSQL, SubmissionCall.reply,
    MemoryStore.getSubmissionByIdempotencyKey]
  by_cases hkey : key = ""
  · subst hkey
    exact ⟨rfl, h⟩
  · have hrow := h.keys key
    rw [if_neg hkey, MemoryStore.bound]
    cases hlookup : m.idempotency.lookup key with
    | none =>
      rw [hlookup] at hrow
      rw [SQLStore.run_getByKey_none hkey hrow]
      exact ⟨rfl, h⟩
    | some id =>
      rw [hlookup] at hrow
      rw [SQLStore.run_getByKey_some hkey hrow, h.submissions, Option.bind_some]
      refine ⟨?_, h⟩
      simp only [SubmissionReply.ofFound, funext Stored.copy_eq]

theorem abandon (h : SameSubmissions m db) (d : Dialect) (id key : String) :
    Agree ((SubmissionCall.abandon id key).onMemory m)
      ((SubmissionCall.abandon id key).onSQL d db) := by
  unfold Agree
  simp only [SubmissionCall.onMemory, SubmissionCall.onSQL, SubmissionCall.reply,
    MemoryStore.abandonSubmission, ← h.submissions]
  cases hget : db (.submission id) with
  | none =>
    rw [SQLStore.run_abandon_rejected (by simp [hget])]
    exact ⟨rfl, h⟩
  | some body =>
    by_cases hstatus : body.val.status = .accepted
    · obtain ⟨db', hrun, hsub, hkeys⟩ := @SQLStore.run_abandon_ok db key id body hget hstatus
      rw [hrun]
      simp only [hstatus, ne_eq, not_true_eq_false, if_false]
      refine ⟨rfl, ?_, ?_⟩
      · intro y
        rw [hsub, Table.get?_erase, h.submissions]
      · intro k
        rw [hkeys, h.keys]
        by_cases hfree : ¬key = "" ∧ m.idempotency.lookup key = some id
        · simp only [hfree, not_false_eq_true, and_self, if_true]
          by_cases hk : k = key
          · subst hk
            simp [hfree.1, hfree.2]
          · simp [hk, Finmap.lookup_erase_ne hk]
        · simp only [hfree, if_false]
          rw [if_neg]
          rintro ⟨hkey, rfl, hany⟩
          refine hfree ⟨hkey, ?_⟩
          cases hlookup : m.idempotency.lookup k with
          | none => simp [hlookup] at hany
          | some y =>
            rw [hlookup] at hany
            simpa using hany
    · rw [SQLStore.run_abandon_rejected (by simpa [hget] using hstatus)]
      simp only [hstatus, ne_eq, not_false_eq_true, if_true]
      exact ⟨rfl, h⟩

/-- A row is changed, but for its id. -/
theorem update (h : SameSubmissions m db) {id : String} {body : Stored Submission}
    (hget : db (.submission id) = some body) {sub : Submission} (hid : sub.id = body.val.id) :
    SameSubmissions (m.putSubmission sub) (db.write ⟨.submission id, some (.of sub)⟩) := by
  have hwrite := h.write sub
  rwa [hid, SubmissionTable.id_of_get? ((h.submissions id).symm.trans hget)] at hwrite

theorem claimResume (h : SameSubmissions m db) (d : Dialect) (id : String) :
    Agree ((SubmissionCall.claimResume id).onMemory m)
      ((SubmissionCall.claimResume id).onSQL d db) := by
  unfold Agree
  simp only [SubmissionCall.onMemory, SubmissionCall.onSQL, SubmissionCall.reply,
    MemoryStore.claimResume, ← h.submissions, SQLStore.claimResume_eq]
  cases hget : db (.submission id) with
  | none =>
    rw [SQLStore.run_guardedUpdate_kept d (by simp [hget])]
    exact ⟨rfl, h⟩
  | some body =>
    by_cases hstatus : body.val.status = .deferred
    · have hclean := Stored.clean_with_status body .running
      rw [SQLStore.run_guardedUpdate_ok d hget hstatus]
      simp only [hstatus, ne_eq, not_true_eq_false, if_false, hclean]
      exact ⟨rfl, h.update hget rfl⟩
    · rw [SQLStore.run_guardedUpdate_kept d (by simpa [hget] using hstatus)]
      simp only [hstatus, ne_eq, not_false_eq_true, if_true]
      exact ⟨rfl, h⟩

theorem releaseResume (h : SameSubmissions m db) (d : Dialect) (id : String) :
    Agree ((SubmissionCall.releaseResume id).onMemory m)
      ((SubmissionCall.releaseResume id).onSQL d db) := by
  unfold Agree
  simp only [SubmissionCall.onMemory, SubmissionCall.onSQL, SubmissionCall.reply,
    MemoryStore.releaseResume, ← h.submissions, SQLStore.releaseResume_eq]
  cases hget : db (.submission id) with
  | none =>
    rw [SQLStore.run_guardedUpdate_kept d (by simp [hget])]
    exact ⟨rfl, h⟩
  | some body =>
    by_cases hstatus : body.val.status = .running
    · rw [SQLStore.run_guardedUpdate_ok d hget hstatus]
      simp only [hstatus, ne_eq, not_true_eq_false, if_false]
      exact ⟨rfl, h.update hget rfl⟩
    · rw [SQLStore.run_guardedUpdate_kept d (by simpa [hget] using hstatus)]
      simp only [hstatus, ne_eq, not_false_eq_true, if_true]
      exact ⟨rfl, h⟩

/-- **One call on both stores.** -/
theorem call (h : SameSubmissions m db) {createdUnder : GoMap String}
    (hstored : KeysStored m createdUnder) (d : Dialect) (c : SubmissionCall) :
    Agree (c.onMemory m) (c.onSQL d db) := by
  cases c with
  | putIdempotent key hash sub => exact h.putIdempotent hstored d key hash sub
  | put sub => exact ⟨rfl, h.write sub⟩
  | get id =>
    refine ⟨?_, h⟩
    simp only [SubmissionCall.onMemory, SubmissionCall.onSQL, SubmissionCall.reply,
      SQLStore.run_getSubmission, h.submissions, SubmissionReply.ofFound,
      MemoryStore.getSubmission, funext Stored.copy_eq]
  | getByKey key => exact h.getByKey d key
  | abandon id key => exact h.abandon d id key
  | claimResume id => exact h.claimResume d id
  | releaseResume id => exact h.releaseResume d id

end SameSubmissions

/-! ## Bound keys -/

namespace KeysStored

variable {m : MemoryStore} {createdUnder : GoMap String}

/-- Writing a row removes none. -/
theorem put (h : KeysStored m createdUnder) (sub : Submission) :
    KeysStored (m.putSubmission sub) createdUnder := by
  intro key id hid
  obtain ⟨hkey, hsome, hcreated⟩ := h key id hid
  refine ⟨hkey, ?_, hcreated⟩
  rw [MemoryStore.putSubmission, SubmissionTable.get?_put_of]
  split
  · rfl
  · exact hsome

/-- A new submission is filed under its key. -/
theorem bind (h : KeysStored m createdUnder) (key hash : String) {sub : Submission}
    (hfresh : m.submissions.get? sub.id = none) :
    KeysStored (m.bindSubmission key hash sub) (createdUnder.insert sub.id key) := by
  intro k id hid
  rw [(m.lookup_bindSubmission key hash sub k).1] at hid
  rw [MemoryStore.bindSubmission_submissions, SubmissionTable.get?_put_of]
  split at hid
  · rename_i hk
    cases hid
    obtain ⟨hkey, rfl⟩ := hk
    exact ⟨hkey, by simp, Finmap.lookup_insert _⟩
  · obtain ⟨hkey, hsome, hcreated⟩ := h k id hid
    have hne : id ≠ sub.id := by
      rintro rfl
      rw [hfresh] at hsome
      cases hsome
    refine ⟨hkey, ?_, ?_⟩
    · rw [if_neg hne]
      exact hsome
    · rw [Finmap.lookup_insert_of_ne _ hne, hcreated]

/-- The binding goes with the submission, because it was created under
that key. -/
theorem abandon (h : KeysStored m createdUnder) {id key : String}
    (hkey : ∀ k ∈ createdUnder.lookup id, key = k) :
    KeysStored (m.abandonSubmission id key).2 createdUnder := by
  by_cases hstatus : m.status id = some .accepted
  · have hold {k y : String} (hy : (m.abandonSubmission id key).2.idempotency.lookup k = some y) :
        m.idempotency.lookup k = some y ∧ y ≠ id := by
      rw [MemoryStore.status, Option.map_eq_some_iff] at hstatus
      obtain ⟨row, hrow, haccepted⟩ := hstatus
      simp only [MemoryStore.abandonSubmission, hrow, haccepted, ne_eq, not_true_eq_false,
        if_false] at hy
      have hlookup : m.idempotency.lookup k = some y := by
        split at hy
        · by_cases hk : k = key
          · subst hk
            rw [Finmap.lookup_erase] at hy
            cases hy
          · rwa [Finmap.lookup_erase_ne hk] at hy
        · exact hy
      refine ⟨hlookup, ?_⟩
      rintro rfl
      obtain ⟨hne, -, hcreated⟩ := h k y hlookup
      obtain rfl := hkey k hcreated
      rw [if_pos ⟨hne, hlookup⟩, Finmap.lookup_erase] at hy
      cases hy
    intro k y hy
    obtain ⟨hlookup, hne⟩ := hold hy
    obtain ⟨hk, hsome, hcreated⟩ := h k y hlookup
    refine ⟨hk, ?_, hcreated⟩
    rw [(MemoryStore.abandonSubmission_ok hstatus).1, Table.get?_erase_ne _ hne]
    exact hsome
  · rw [MemoryStore.abandonSubmission_rejected hstatus]
    exact h

theorem putIdempotent {s : BothSubmissions} (h : KeysStored s.memory s.createdUnder)
    (key hash : String) {sub : Submission} (hfresh : s.memory.submissions.get? sub.id = none) :
    KeysStored ((SubmissionCall.putIdempotent key hash sub).onMemory s.memory).2
      ((SubmissionCall.putIdempotent key hash sub).creates s) := by
  simp only [SubmissionCall.onMemory, SubmissionCall.creates,
    MemoryStore.putSubmissionIdempotent]
  split
  · split
    · exact h
    · exact h
  · exact h.bind key hash hfresh

/-- **Every call keeps bound keys bound to stored submissions.** -/
theorem call {s : BothSubmissions} (h : KeysStored s.memory s.createdUnder) {c : SubmissionCall}
    (hc : c.Legal s) : KeysStored (c.onMemory s.memory).2 (c.creates s) := by
  cases c with
  | putIdempotent key hash sub => exact h.putIdempotent key hash hc
  | put sub => exact h.put sub
  | get id => exact h
  | getByKey key => exact h
  | abandon id key => exact h.abandon hc
  | claimResume id =>
    simp only [SubmissionCall.onMemory, SubmissionCall.creates, MemoryStore.claimResume]
    split
    · exact h
    · split
      · exact h
      · exact h.put _
  | releaseResume id =>
    simp only [SubmissionCall.onMemory, SubmissionCall.creates, MemoryStore.releaseResume]
    split
    · exact h
    · split
      · exact h
      · exact h.put _

end KeysStored

/-! ## Whole runs -/

structure SubmissionsInv (s : BothSubmissions) : Prop where
  same : SameSubmissions s.memory s.sql
  keys : KeysStored s.memory s.createdUnder

theorem submissionsInv_reach {d : Dialect} {s : BothSubmissions}
    (h : (submissionSys d).Reach (fun _ _ => True) s) : SubmissionsInv s := by
  refine h.invariant ?_ ?_
  · rintro s rfl
    refine ⟨⟨fun id => rfl, fun key => rfl⟩, ?_⟩
    intro key id hid
    cases hid
  · rintro s c s' ⟨hsame, hstored⟩ - hstep
    simp only [submissionSys] at hstep
    split at hstep
    · rename_i hlegal
      cases hstep
      exact ⟨(hsame.call hstored d c).2, hstored.call hlegal⟩
    · cases hstep

/-- **The SQL store answers as the memory store does.** After any sequence
of calls, made as the server and the orchestrator make them, the next call
gets the same reply from both, and in both every bound key names a stored
submission. -/
theorem sql_submissions_mirror_memory {d : Dialect} {s : BothSubmissions}
    (h : (submissionSys d).Reach (fun _ _ => True) s) :
    (∀ c : SubmissionCall, c.Legal s → (c.onSQL d s.sql).1 = (c.onMemory s.memory).1) ∧
      (∀ key id, s.memory.idempotency.lookup key = some id →
        (s.memory.submissions.get? id).isSome) ∧
      ∀ key row, s.sql (.idempotency key) = some row →
        (s.sql (.submission row.submissionID)).isSome := by
  obtain ⟨hsame, hstored⟩ := submissionsInv_reach h
  refine ⟨fun c _ => (hsame.call hstored d c).1, fun key id hid => (hstored key id hid).2.1, ?_⟩
  intro key row hrow
  rw [hsame.keys, Option.map_eq_some_iff] at hrow
  obtain ⟨id, hid, rfl⟩ := hrow
  rw [hsame.submissions]
  exact (hstored key id hid).2.1

/-- After a submission was created under a key, another request with that
key is refused by both stores, and the submission can be abandoned. -/
theorem sql_submissions_mirror_memory_key :
    ∃ s, (submissionSys .postgres).Reach (fun _ _ => True) s ∧
      ((SubmissionCall.putIdempotent "k" "h2" { id := "sub_b", status := .accepted }).onMemory
        s.memory).1 = .failed (.store .idempotencyConflict) ∧
      ((SubmissionCall.putIdempotent "k" "h2" { id := "sub_b", status := .accepted }).onSQL
        .postgres s.sql).1 = .failed (.store .idempotencyConflict) ∧
      (s.sql (.submission "sub_a")).isSome ∧
      ((SubmissionCall.abandon "sub_a" "k").onSQL .postgres s.sql).1 = .done := by
  let sub : Submission := { id := "sub_b", status := .accepted }
  let acts : List SubmissionCall :=
    [.putIdempotent "k" "h1" { id := "sub_a", status := .accepted }]
  have hrun : ((submissionSys .postgres).run (fun _ _ => True) acts {}).map (fun s =>
      (((SubmissionCall.putIdempotent "k" "h2" sub).onMemory s.memory).1,
        s.memory.submissions.get? "sub_b", s.createdUnder.lookup "sub_a",
        s.sql (.idempotency "k"), ((SubmissionCall.abandon "sub_a" "k").onMemory s.memory).1)) =
      some (.failed (.store .idempotencyConflict), none, some "k", some ⟨"sub_a", "h1"⟩,
        .done) := by
    decide +kernel
  obtain ⟨s, hreach, heq⟩ := (Sys.Reach.init rfl).of_run_map hrun
  simp only [Prod.mk.injEq] at heq
  obtain ⟨hmemory, hfresh, hcreated, hkey, habandon⟩ := heq
  obtain ⟨hreply, -, hstored⟩ := sql_submissions_mirror_memory hreach
  refine ⟨s, hreach, hmemory, ?_, hstored "k" _ hkey, ?_⟩
  · rw [← hmemory]
    exact hreply (.putIdempotent "k" "h2" sub) hfresh
  · rw [← habandon]
    refine hreply (.abandon "sub_a" "k") ?_
    intro k hk
    rw [hcreated] at hk
    exact Option.some.inj hk

end Scintx.Store
