/-
Scintx.Store.JobCounts — the column `attempts` of the job queue, in the
memory store and in the SQL store.

`Counted` lists all that a call can do to the counters: create one at
zero, raise one by one and RETURN it, remove one, or leave them all. It
does so in either store, whatever the calls before were and whatever
clock values they read (`JobStore.call_counted`); leases, owners and the
order of rows do not come into it.
-/
import Mathlib.Logic.Function.Basic
import Scintx.Store.SqlJobQueueTheorems
import Scintx.Store.Timestamps

namespace Scintx.Store

open Scintx.Lib Scintx.Api

/-- A call on the SQL store, whose claims compare timestamps as texts. -/
def JobCall.onText (now : Time) (jobs : SqlJobTable) : JobCall → JobReply × SqlJobTable
  | .claim owner lease _ order =>
    (.ofClaim (SQLStore.claimJobText jobs order owner lease now).1,
      (SQLStore.claimJobText jobs order owner lease now).2)
  | call => call.onSQL now jobs

/-- The stores a `JobQueue` can be. -/
inductive JobStore where
  | memory (jobs : JobTable)
  | sql (jobs : SqlJobTable)

namespace JobStore

/-- A call at clock value `now`. -/
def call (now : Time) (c : JobCall) : JobStore → JobReply × JobStore
  | .memory jobs => ((c.onMemory now jobs).1, .memory (c.onMemory now jobs).2)
  | .sql jobs => ((c.onText now jobs).1, .sql (c.onText now jobs).2)

/-- The attempts of each row. -/
def attempts : JobStore → String → Option Nat
  | .memory jobs => fun id => (jobs.get? id).map (·.attempts)
  | .sql jobs => fun id => (jobs.get? id).map (·.attempts)

theorem attempts_memory (jobs : JobTable) (id : String) :
    (memory jobs).attempts id = (jobs.get? id).map (·.attempts) := rfl

theorem attempts_sql (jobs : SqlJobTable) (id : String) :
    (sql jobs).attempts id = (jobs.get? id).map (·.attempts) := rfl

end JobStore

/-- The job a reply hands out, with its attempts. -/
def JobReply.job : JobReply → Option (String × Nat)
  | .claimed job => job
  | _ => none

/-- All that a call with its reply can do to the counters. -/
inductive Counted (f : String → Option Nat) : JobCall → JobReply → (String → Option Nat) → Prop
  | same {c : JobCall} {reply : JobReply} (hreply : reply.job = none) : Counted f c reply f
  | created {id : String} (hnew : f id = none) :
      Counted f (.enqueue id) .done (Function.update f id (some 0))
  | claimed {owner : String} {lease : Duration} {order sqlOrder : List String} {id : String}
      {n : Nat} (hrow : f id = some n) :
      Counted f (.claim owner lease order sqlOrder) (.claimed (some (id, n + 1)))
        (Function.update f id (some (n + 1)))
  | removed {c : JobCall} {reply : JobReply} {id : String} (hreply : reply.job = none) :
      Counted f c reply (Function.update f id none)

/-! ## The memory store -/

section Memory

variable {jobs : JobTable} {now : Time}

theorem attempts_put (jobs : JobTable) (j : MemJob) :
    (JobStore.memory (jobs.put j)).attempts =
      Function.update (JobStore.memory jobs).attempts j.submissionID (some j.attempts) := by
  funext id
  by_cases h : id = j.submissionID
  · subst h
    simp [JobStore.attempts_memory]
  · simp [JobStore.attempts_memory, Table.get?_put_ne _ h, h]

theorem attempts_erase (jobs : JobTable) (id : String) :
    (JobStore.memory (jobs.erase id)).attempts =
      Function.update (JobStore.memory jobs).attempts id none := by
  funext k
  by_cases h : k = id
  · subst h
    simp [JobStore.attempts_memory]
  · simp [JobStore.attempts_memory, Table.get?_erase_ne _ h, h]

theorem attempts_rependExpired (jobs : JobTable) (now : Time) :
    (JobStore.memory (rependExpired jobs now)).attempts = (JobStore.memory jobs).attempts := by
  have hrow : ∀ j : MemJob, (j.repend now).attempts = j.attempts := by
    intro j
    unfold MemJob.repend
    split <;> rfl
  funext id
  simp only [JobStore.attempts_memory, get?_rependExpired, Option.map_map, Function.comp_def, hrow]

theorem counted_enqueueJob (now : Time) (jobs : JobTable) (id : String) :
    Counted (JobStore.memory jobs).attempts (.enqueue id) ((JobCall.enqueue id).onMemory now jobs).1
      (JobStore.memory ((JobCall.enqueue id).onMemory now jobs).2).attempts := by
  unfold JobCall.onMemory enqueueJob
  by_cases hid : id = ""
  · simp only [hid, if_true]
    exact .same rfl
  · simp only [hid, if_false]
    cases hget : jobs.get? id with
    | some j =>
      -- a row is pending or leased, so it is kept
      have hactive : j.status = .pending ∨ j.status = .leased := by
        cases j.status
        · exact .inl rfl
        · exact .inr rfl
      simp only [hactive, if_true]
      exact .same rfl
    | none =>
      simp only [attempts_put]
      exact .created (by simp [JobStore.attempts_memory, hget])

theorem counted_claimJob (now : Time) (jobs : JobTable) (owner : String) (lease : Duration)
    (order sqlOrder : List String) :
    Counted (JobStore.memory jobs).attempts (.claim owner lease order sqlOrder)
      (.ofClaim (claimJob jobs order owner lease now).1)
      (JobStore.memory (claimJob jobs order owner lease now).2).attempts := by
  unfold claimJob
  by_cases howner : owner = ""
  · simp only [howner, if_true]
    exact .same rfl
  · simp only [howner, if_false]
    cases hpick : pickOldest (rependExpired jobs now) order with
    | none =>
      simp only [attempts_rependExpired]
      exact .same rfl
    | some best =>
      have hrow : (JobStore.memory jobs).attempts best.submissionID = some best.attempts := by
        rw [← attempts_rependExpired jobs now]
        simp [JobStore.attempts_memory, (pickOldest_pending hpick).1]
      simp only [attempts_put, attempts_rependExpired]
      exact .claimed hrow

theorem counted_memory (now : Time) (jobs : JobTable) (c : JobCall) :
    Counted (JobStore.memory jobs).attempts c (c.onMemory now jobs).1
      (JobStore.memory (c.onMemory now jobs).2).attempts := by
  cases c with
  | enqueue id => exact counted_enqueueJob now jobs id
  | delete id =>
    simp only [JobCall.onMemory, deleteJob, attempts_erase]
    exact .removed rfl
  | claim owner lease order sqlOrder =>
    exact counted_claimJob now jobs owner lease order sqlOrder
  | heartbeat id owner lease =>
    simp only [JobCall.onMemory, heartbeatJob]
    cases hget : jobs.get? id with
    | none => exact .same rfl
    | some j =>
      simp only
      split
      · exact .same rfl
      · -- the row is filed again with the same counter
        have hrow : (JobStore.memory jobs).attempts j.submissionID = some j.attempts := by
          rw [JobStore.attempts_memory, Table.key_of_get? hget, hget, Option.map_some]
        rw [attempts_put, ← hrow, Function.update_eq_self]
        exact .same rfl
  | complete id owner =>
    simp only [JobCall.onMemory, completeJob]
    cases hget : jobs.get? id with
    | none => exact .same rfl
    | some j =>
      simp only
      split
      · exact .same rfl
      · rw [attempts_erase]
        exact .removed rfl
  | pendingCount => exact .same rfl

end Memory

/-! ## The SQL store -/

section Sql

theorem attempts_sqlPut (jobs : SqlJobTable) (r : JobRow) :
    (JobStore.sql (jobs.put r)).attempts =
      Function.update (JobStore.sql jobs).attempts r.submissionID (some r.attempts) := by
  funext id
  by_cases h : id = r.submissionID
  · subst h
    simp [JobStore.attempts_sql]
  · simp [JobStore.attempts_sql, Table.get?_put_ne _ h, h]

theorem attempts_sqlUpdate {cond : JobRow → Sql.Truth} {set : JobRow → JobRow}
    (hset : ∀ v, (set v).submissionID = v.submissionID) (hkeep : ∀ v, (set v).attempts = v.attempts)
    (jobs : SqlJobTable) :
    (JobStore.sql (Sql.update cond set hset jobs)).attempts = (JobStore.sql jobs).attempts := by
  funext id
  simp only [JobStore.attempts_sql, Sql.get?_update, Option.map_map]
  congr 1
  funext v
  simp only [Function.comp_apply]
  split
  · exact hkeep v
  · rfl

/-- A clause that asks for an id deletes one row or none. -/
theorem attempts_deleteWhere {cond : JobRow → Sql.Truth} {id : String}
    (hid : ∀ r, Sql.meets cond r = true → r.submissionID = id) (jobs : SqlJobTable) :
    (JobStore.sql (Sql.deleteWhere cond jobs)).attempts = (JobStore.sql jobs).attempts ∨
      (JobStore.sql (Sql.deleteWhere cond jobs)).attempts =
        Function.update (JobStore.sql jobs).attempts id none := by
  have hother : ∀ k ≠ id, (Sql.deleteWhere cond jobs).get? k = jobs.get? k := by
    intro k hk
    rw [Sql.get?_deleteWhere]
    cases hget : jobs.get? k with
    | none => rfl
    | some r =>
      have hmeets : Sql.meets cond r = false := by
        rw [Bool.eq_false_iff]
        exact fun h => hk ((Table.key_of_get? hget).symm.trans (hid r h))
      simp [hmeets]
  have hself : (Sql.deleteWhere cond jobs).get? id = jobs.get? id ∨
      (Sql.deleteWhere cond jobs).get? id = none := by
    rw [Sql.get?_deleteWhere]
    cases jobs.get? id with
    | none => exact .inl rfl
    | some r => cases hmeets : Sql.meets cond r <;> simp [hmeets]
  refine hself.imp (fun h => ?_) fun h => ?_
  · funext k
    by_cases hk : k = id
    · rw [hk, JobStore.attempts_sql, JobStore.attempts_sql, h]
    · rw [JobStore.attempts_sql, JobStore.attempts_sql, hother k hk]
  · funext k
    by_cases hk : k = id
    · rw [hk, JobStore.attempts_sql, h, Function.update_self, Option.map_none]
    · rw [JobStore.attempts_sql, hother k hk, Function.update_of_ne hk, JobStore.attempts_sql]

theorem counted_deleteWhere {cond : JobRow → Sql.Truth} (id : String)
    (hid : ∀ r, Sql.meets cond r = true → r.submissionID = id) (jobs : SqlJobTable) {c : JobCall}
    {reply : JobReply} (hreply : reply.job = none) :
    Counted (JobStore.sql jobs).attempts c reply
      (JobStore.sql (Sql.deleteWhere cond jobs)).attempts := by
  rcases attempts_deleteWhere hid jobs with h | h
  · rw [h]
    exact .same hreply
  · rw [h]
    exact .removed hreply

/-- Leasing a row raises its counter; if there is none to lease, nothing
happens. -/
theorem attempts_leaseTo (jobs : SqlJobTable) (id owner : String) (leaseEnd : Time) :
    (Sql.affected (SQLStore.claimable id) jobs = 0 ∧
        (JobStore.sql (SQLStore.leaseTo id owner leaseEnd jobs)).attempts =
          (JobStore.sql jobs).attempts) ∨
      ∃ n, Sql.affected (SQLStore.claimable id) jobs ≠ 0 ∧
        (JobStore.sql jobs).attempts id = some n ∧
        (JobStore.sql (SQLStore.leaseTo id owner leaseEnd jobs)).attempts =
          Function.update (JobStore.sql jobs).attempts id (some (n + 1)) := by
  by_cases haff : Sql.affected (SQLStore.claimable id) jobs = 0
  · refine .inl ⟨haff, ?_⟩
    have hnone : ∀ k r, jobs.get? k = some r → Sql.meets (SQLStore.claimable id) r = false := by
      intro k r hget
      rw [Bool.eq_false_iff]
      intro hmeets
      have hpos := Sql.affected_pos.mpr ⟨k, r, hget, of_decide_eq_true hmeets⟩
      omega
    funext k
    rw [JobStore.attempts_sql, JobStore.attempts_sql, SQLStore.leaseTo, Sql.get?_update]
    cases hget : jobs.get? k with
    | none => rfl
    | some r => simp [hnone k r hget]
  · obtain ⟨k, r, hget, hclaimable⟩ := Sql.affected_pos.mp (Nat.pos_of_ne_zero haff)
    obtain ⟨hid, hpending⟩ := SQLStore.claimable_iff.mp hclaimable
    obtain rfl : k = id := (Table.key_of_get? hget).symm.trans hid
    refine .inr ⟨r.attempts, haff, by rw [JobStore.attempts_sql, hget, Option.map_some], ?_⟩
    funext y
    by_cases hy : y = k
    · rw [hy, Function.update_self, JobStore.attempts_sql, SQLStore.leaseTo_self hget hpending,
        Option.map_some]
    · rw [Function.update_of_ne hy, JobStore.attempts_sql, SQLStore.leaseTo_ne hy,
        JobStore.attempts_sql]

theorem counted_claimJobBy {β : Type} [LinearOrder β] (ended : JobRow → Sql.Truth)
    (createdAt : JobRow → β) (now : Time) (jobs : SqlJobTable) (owner : String) (lease : Duration)
    (memOrder order : List String) :
    Counted (JobStore.sql jobs).attempts (.claim owner lease memOrder order)
      (.ofClaim (SQLStore.claimJobBy ended createdAt jobs order owner lease now).1)
      (JobStore.sql
        (SQLStore.claimJobBy ended createdAt jobs order owner lease now).2).attempts := by
  have hpended : (JobStore.sql (SQLStore.rependBy ended jobs)).attempts =
      (JobStore.sql jobs).attempts :=
    attempts_sqlUpdate SQLStore.rependRow_submissionID (fun _ => rfl) jobs
  unfold SQLStore.claimJobBy
  by_cases howner : owner = ""
  · simp only [howner, if_true]
    exact .same rfl
  simp only [howner, if_false]
  cases Sql.selectFirst (SQLStore.statusIs .pending) createdAt
      (SQLStore.rependBy ended jobs) order with
  | none =>
    simp only [SQLStore.claimBest, hpended]
    exact .same rfl
  | some best =>
    simp only [SQLStore.claimBest]
    rcases attempts_leaseTo (SQLStore.rependBy ended jobs) best.submissionID owner
      (now + effectiveLease lease) with ⟨haff, hsame⟩ | ⟨n, haff, hrow, hraised⟩
    · simp only [haff, if_true, hsame, hpended]
      exact .same rfl
    · have hget := congrFun hraised best.submissionID
      rw [Function.update_self, JobStore.attempts_sql] at hget
      obtain ⟨r, hr, hattempts⟩ := Option.map_eq_some_iff.mp hget
      simp only [haff, if_false, hr, hraised, hpended]
      rw [hattempts]
      exact .claimed (hpended ▸ hrow)

theorem counted_sql (now : Time) (jobs : SqlJobTable) (c : JobCall) :
    Counted (JobStore.sql jobs).attempts c (c.onText now jobs).1
      (JobStore.sql (c.onText now jobs).2).attempts := by
  cases c with
  | enqueue id =>
    simp only [JobCall.onText, JobCall.onSQL, SQLStore.enqueueJob]
    by_cases hid : id = ""
    · simp only [hid, if_true]
      exact .same rfl
    · simp only [hid, if_false, Sql.insertIgnore]
      cases hget : jobs.get? id with
      | some r =>
        simp only [Option.isSome_some, if_true]
        exact .same rfl
      | none =>
        simp only [Option.isSome_none, Bool.false_eq_true, if_false, attempts_sqlPut]
        exact .created (by simp [JobStore.attempts_sql, hget])
  | delete id =>
    exact counted_deleteWhere id (fun r h => by simpa [SQLStore.idIs, Sql.meets] using h) jobs
      rfl
  | claim owner lease order sqlOrder => exact counted_claimJobBy ..
  | heartbeat id owner lease =>
    have hkeep : (JobStore.sql (SQLStore.heartbeatJob jobs id owner lease now).2).attempts =
        (JobStore.sql jobs).attempts := by
      refine attempts_sqlUpdate ?_ ?_ jobs
      · exact fun _ => rfl
      · exact fun _ => rfl
    simp only [JobCall.onText, JobCall.onSQL, hkeep]
    exact .same rfl
  | complete id owner =>
    simp only [JobCall.onText, JobCall.onSQL, SQLStore.completeJob]
    split
    · exact counted_deleteWhere id (fun r h => by simpa [SQLStore.idIs, Sql.meets] using h) jobs
        rfl
    · refine counted_deleteWhere id (fun r h => ?_) jobs rfl
      have htrue : SQLStore.completable id owner r = Sql.isTrue := of_decide_eq_true h
      simp only [SQLStore.completable, Sql.and_isTrue, SQLStore.idIs, Sql.eq_isTrue] at htrue
      exact Option.some.inj htrue.1
  | pendingCount => exact .same rfl

end Sql

/-- **What a call does to the counters**, in either store. -/
theorem JobStore.call_counted (now : Time) (c : JobCall) (q : JobStore) :
    Counted q.attempts c (q.call now c).1 (q.call now c).2.attempts := by
  cases q with
  | memory jobs => exact counted_memory now jobs c
  | sql jobs => exact counted_sql now jobs c

/-! ## How many rows there are -/

namespace JobStore

/-- `PendingJobCount`. -/
def pending : JobStore → Nat
  | .memory jobs => pendingJobCount jobs
  | .sql jobs => SQLStore.pendingJobCount jobs

def rows : JobStore → Finset String
  | .memory jobs => jobs.rows.keys
  | .sql jobs => jobs.rows.keys

theorem mem_rows {q : JobStore} {id : String} : id ∈ q.rows ↔ q.attempts id ≠ none := by
  cases q <;> rw [rows, attempts, Finmap.mem_keys, ← Finmap.lookup_isSome, Ne,
    Option.map_eq_none_iff, ← Ne, Option.isSome_iff_ne_none] <;> rfl

/-- Every row is pending or leased. -/
theorem pending_eq_card (q : JobStore) : q.pending = q.rows.card := by
  cases q with
  | memory jobs => exact pendingJobCount_eq jobs
  | sql jobs => exact SQLStore.pendingJobCount_eq jobs

/-- Only `EnqueueJob` adds a row, and that of its submission. -/
theorem mem_rows_call {now : Time} {c : JobCall} {q : JobStore} {id : String}
    (h : id ∈ (q.call now c).2.rows) : id ∈ q.rows ∨ c = .enqueue id := by
  have hcounted := q.call_counted now c
  rw [mem_rows] at h ⊢
  generalize (q.call now c).1 = reply at hcounted
  generalize (q.call now c).2.attempts = f at h hcounted
  cases hcounted with
  | same => exact .inl h
  | @created k hnew =>
    by_cases hk : id = k
    · exact .inr (by rw [hk])
    · rw [Function.update_of_ne hk] at h
      exact .inl h
  | @claimed _ _ _ _ k n hrow =>
    by_cases hk : id = k
    · exact .inl (by rw [hk, hrow]; exact Option.some_ne_none n)
    · rw [Function.update_of_ne hk] at h
      exact .inl h
  | @removed _ _ k =>
    by_cases hk : id = k
    · rw [hk, Function.update_self] at h
      exact absurd rfl h
    · rw [Function.update_of_ne hk] at h
      exact .inl h

/-- A submission that has no row gets one. -/
theorem call_enqueue_new (now : Time) (q : JobStore) {id : String} (hid : id ≠ "")
    (hnew : id ∉ q.rows) :
    (q.call now (.enqueue id)).1 = .done ∧
      (q.call now (.enqueue id)).2.pending = q.pending + 1 := by
  have hnone : q.attempts id = none := by simpa [mem_rows] using hnew
  have hcall : (q.call now (.enqueue id)).1 = .done ∧
      (q.call now (.enqueue id)).2.attempts = Function.update q.attempts id (some 0) := by
    cases q with
    | memory jobs =>
      have hget : jobs.get? id = none := by simpa [attempts_memory] using hnone
      simp only [call, JobCall.onMemory, enqueueJob, hid, hget, if_false, attempts_put, and_self]
    | sql jobs =>
      have hget : jobs.get? id = none := by simpa [attempts_sql] using hnone
      simp only [call, JobCall.onText, JobCall.onSQL, SQLStore.enqueueJob, hid, Sql.insertIgnore,
        hget, Option.isSome_none, Bool.false_eq_true, if_false, attempts_sqlPut, and_self]
  refine ⟨hcall.1, ?_⟩
  have hrows : (q.call now (.enqueue id)).2.rows = insert id q.rows := by
    ext y
    rw [Finset.mem_insert, mem_rows, mem_rows, hcall.2]
    by_cases hy : y = id
    · simp [hy]
    · simp [hy]
  rw [pending_eq_card, pending_eq_card, hrows, Finset.card_insert_of_notMem hnew]

/-- A call adds at most one row, and none unless it enqueues. -/
theorem pending_call_le (now : Time) (c : JobCall) (q : JobStore) :
    (q.call now c).2.pending ≤ q.pending + c.isEnqueue.toNat := by
  rw [pending_eq_card, pending_eq_card]
  cases hc : c.isEnqueue with
  | true =>
    obtain ⟨id, rfl⟩ : ∃ id, c = .enqueue id := by
      cases c with
      | enqueue id => exact ⟨id, rfl⟩
      | _ => cases hc
    refine (Finset.card_le_card fun y hy => ?_).trans (Finset.card_insert_le id q.rows)
    rcases mem_rows_call hy with hold | hnew
    · exact Finset.mem_insert_of_mem hold
    · cases hnew
      exact Finset.mem_insert_self ..
  | false =>
    refine Finset.card_le_card fun y hy => ?_
    rcases mem_rows_call hy with hold | rfl
    · exact hold
    · cases hc

end JobStore

end Scintx.Store
