/-
Scintx.Store.SqlJobQueueTheorems — the two job queues are one.

`Mirrors` relates a row of the SQL table to a row of the memory store:
the same columns, NULL for Go's zero values. `SameQueue` is `Mirrors`
under every id, and it is an invariant of `bothSys`: every call keeps it
(`SameQueue.enqueue` to `SameQueue.complete`). What a call returns
follows from it.

Two things are needed. Two rows of one creation instant may be claimed in
either order, so the instants of enqueues are DISTINCT (`Stamped`). And
the memory store takes a lease that ends at the zero `time.Time` for no
lease, so no lease ends then (`zero_lease_and_empty_owner`).
-/
import Scintx.Store.JobQueueTheorems
import Scintx.Store.SqlJobQueue

namespace Scintx.Store

open Scintx.Lib Scintx.Api

/-! ## The relation -/

/-- The two rows say the same; NULL stands for the zero value. -/
inductive Mirrors : JobRow → MemJob → Prop
  | pending {id : String} {created : Time} {attempts : Nat} :
      Mirrors ⟨id, .pending, created, none, none, attempts⟩ ⟨id, .pending, created, "", 0, attempts⟩
  | leased {id owner : String} {created leaseEnd : Time} {attempts : Nat} (howner : owner ≠ "")
      (hend : leaseEnd ≠ 0) :
      Mirrors ⟨id, .leased, created, some owner, some leaseEnd, attempts⟩
        ⟨id, .leased, created, owner, leaseEnd, attempts⟩

theorem Mirrors.id_eq {r : JobRow} {j : MemJob} (h : Mirrors r j) :
    r.submissionID = j.submissionID := by
  cases h <;> rfl

theorem Mirrors.created_eq {r : JobRow} {j : MemJob} (h : Mirrors r j) :
    r.createdAt = j.createdAt := by
  cases h <;> rfl

theorem Mirrors.attempts_eq {r : JobRow} {j : MemJob} (h : Mirrors r j) :
    r.attempts = j.attempts := by
  cases h <;> rfl

theorem Mirrors.status_eq {r : JobRow} {j : MemJob} (h : Mirrors r j) : r.status = j.status := by
  cases h <;> rfl

/-- The same jobs, each in the same state. -/
def SameQueue (memory : JobTable) (sql : SqlJobTable) : Prop :=
  ∀ id, Option.Rel Mirrors (sql.get? id) (memory.get? id)

section Lookups

variable {memory : JobTable} {sql : SqlJobTable} {id : String}

theorem SameQueue.of_memory (h : SameQueue memory sql) {j : MemJob}
    (hj : memory.get? id = some j) : ∃ r, sql.get? id = some r ∧ Mirrors r j := by
  have hrel := h id
  rw [hj] at hrel
  generalize sql.get? id = row at hrel
  cases hrel with
  | some hm => exact ⟨_, rfl, hm⟩

theorem SameQueue.of_sql (h : SameQueue memory sql) {r : JobRow} (hr : sql.get? id = some r) :
    ∃ j, memory.get? id = some j ∧ Mirrors r j := by
  have hrel := h id
  rw [hr] at hrel
  generalize memory.get? id = row at hrel
  cases hrel with
  | some hm => exact ⟨_, rfl, hm⟩

theorem SameQueue.isSome (h : SameQueue memory sql) (id : String) :
    (sql.get? id).isSome = (memory.get? id).isSome := by
  have hrel := h id
  generalize sql.get? id = row at hrel ⊢
  generalize memory.get? id = row' at hrel ⊢
  cases hrel <;> rfl

end Lookups

/-- Related rows under one key of related maps. -/
theorem rel_map {α β α' β' : Type} {R : α → β → Prop} {R' : α' → β' → Prop} {f : α → α'}
    {g : β → β'} (hfg : ∀ a b, R a b → R' (f a) (g b)) {a : Option α} {b : Option β}
    (h : Option.Rel R a b) : Option.Rel R' (a.map f) (b.map g) := by
  cases h with
  | some h => exact .some (hfg _ _ h)
  | none => exact .none

/-! ## The oldest pending row -/

section Oldest

variable {jobs : JobTable} {best : Option MemJob} {id : String}

/-- The best row so far only gets older. -/
theorem pickRound_le (jobs : JobTable) (id : String) {b : MemJob} (hbest : best = some b) :
    ∃ b', pickRound jobs best id = some b' ∧ b'.createdAt ≤ b.createdAt := by
  subst hbest
  unfold pickRound
  split
  · exact ⟨b, rfl, le_refl _⟩
  · rename_i j _
    split
    · exact ⟨b, rfl, le_refl _⟩
    · by_cases hlt : j.createdAt < b.createdAt
      · exact ⟨j, if_pos hlt, hlt.le⟩
      · exact ⟨b, if_neg hlt, le_refl _⟩

/-- A pending row is looked at. -/
theorem pickRound_sees (best : Option MemJob) {j : MemJob} (hget : jobs.get? id = some j)
    (hpending : j.status = .pending) :
    ∃ b', pickRound jobs best id = some b' ∧ b'.createdAt ≤ j.createdAt := by
  simp only [pickRound, hget, hpending, ne_eq, not_true_eq_false, if_false]
  cases best with
  | none => exact ⟨j, rfl, le_refl _⟩
  | some b =>
    by_cases hlt : j.createdAt < b.createdAt
    · exact ⟨j, if_pos hlt, le_refl _⟩
    · exact ⟨b, if_neg hlt, not_lt.mp hlt⟩

theorem pickRounds_le (order : List String) {b : MemJob} (hbest : best = some b) :
    ∃ b', order.foldl (pickRound jobs) best = some b' ∧ b'.createdAt ≤ b.createdAt := by
  induction order generalizing best b with
  | nil => exact ⟨b, hbest, le_refl _⟩
  | cons id order ih =>
    obtain ⟨b₁, h₁, hle₁⟩ := pickRound_le jobs id hbest
    obtain ⟨b₂, h₂, hle₂⟩ := ih h₁
    exact ⟨b₂, h₂, hle₂.trans hle₁⟩

/-- `pickOldest` finds a row that is as old as any pending one. -/
theorem pickOldest_le {order : List String} (hmem : id ∈ order) {j : MemJob}
    (hget : jobs.get? id = some j) (hpending : j.status = .pending) :
    ∃ b, pickOldest jobs order = some b ∧ b.createdAt ≤ j.createdAt := by
  obtain ⟨before, after, rfl⟩ := List.append_of_mem hmem
  rw [pickOldest, List.foldl_append, List.foldl_cons]
  obtain ⟨b₁, h₁, hle₁⟩ := pickRound_sees (before.foldl (pickRound jobs) none) hget hpending
  obtain ⟨b₂, h₂, hle₂⟩ := pickRounds_le after h₁
  exact ⟨b₂, h₂, hle₂.trans hle₁⟩

end Oldest

/-- Rows of different jobs were created at different instants. -/
def Stamped (memory : JobTable) : Prop :=
  ∀ id id' j j', memory.get? id = some j → memory.get? id' = some j' →
    j.createdAt = j'.createdAt → id = id'

/-- **Both stores claim the same row.** -/
theorem SameQueue.oldest {memory : JobTable} {sql : SqlJobTable} (h : SameQueue memory sql)
    (hstamped : Stamped memory) {order sqlOrder : List String} (horder : memory.Enumerates order)
    (hsqlOrder : sql.Enumerates sqlOrder) :
    Option.Rel Mirrors
      (Sql.selectFirst (SQLStore.statusIs .pending) JobRow.createdAt sql sqlOrder)
      (pickOldest memory order) := by
  have hpending (r : JobRow) : SQLStore.statusIs .pending r = Sql.isTrue ↔ r.status = .pending := by
    simp [SQLStore.statusIs]
  cases hsel : Sql.selectFirst (SQLStore.statusIs .pending) JobRow.createdAt sql sqlOrder with
  | none =>
    cases hpick : pickOldest memory order with
    | none => exact .none
    | some b =>
      obtain ⟨hget, hst⟩ := pickOldest_pending hpick
      obtain ⟨r, hr, hm⟩ := h.of_memory hget
      exact absurd ((hpending r).mpr (hm.status_eq.trans hst))
        ((Sql.selectFirst_none hsqlOrder).mp hsel _ r hr)
  | some r =>
    obtain ⟨⟨hr, hrp⟩, hmin⟩ := Sql.selectFirst_some hsqlOrder hsel
    obtain ⟨j, hj, hm⟩ := h.of_sql hr
    have hjp : j.status = .pending := hm.status_eq ▸ (hpending r).mp hrp
    obtain ⟨b, hpick, hle⟩ := pickOldest_le ((horder.mem_iff _).mpr ⟨j, hj⟩) hj hjp
    obtain ⟨hb, hbp⟩ := pickOldest_pending hpick
    obtain ⟨r', hr', hm'⟩ := h.of_memory hb
    have hge := hmin _ r' hr' ((hpending r').mpr (hm'.status_eq.trans hbp))
    rw [hm.created_eq, hm'.created_eq] at hge
    -- as old as each other, so the same job
    have hid := hstamped _ _ _ _ hj hb (le_antisymm hge hle)
    rw [hid, hb] at hj
    cases hj
    rw [hpick]
    exact .some hm

/-! ## Every call keeps the relation -/

section Calls

variable {memory : JobTable} {sql : SqlJobTable}

theorem SameQueue.enqueue (h : SameQueue memory sql) (now : Time) (id : String) :
    (JobCall.onMemory now memory (.enqueue id)).1 = (JobCall.onSQL now sql (.enqueue id)).1 ∧
      SameQueue (JobCall.onMemory now memory (.enqueue id)).2
        (JobCall.onSQL now sql (.enqueue id)).2 := by
  by_cases hid : id = ""
  · simpa [JobCall.onMemory, JobCall.onSQL, enqueueJob, SQLStore.enqueueJob, hid] using h
  · simp only [JobCall.onMemory, JobCall.onSQL, enqueueJob, SQLStore.enqueueJob, hid, if_false]
    have hsome := h.isSome id
    cases hget : memory.get? id with
    | some j =>
      rw [hget] at hsome
      have hactive : j.status = .pending ∨ j.status = .leased := by
        cases j.status <;> simp
      simp only [hactive, if_true, Sql.insertIgnore, hsome, Option.isSome_some]
      exact ⟨trivial, h⟩
    | none =>
      rw [hget] at hsome
      refine ⟨rfl, fun k => ?_⟩
      simp only [Sql.insertIgnore, hsome, Option.isSome_none, Bool.false_eq_true, if_false,
        Table.get?_put]
      split
      · exact .some .pending
      · exact h k

/-- Rows deleted under one id. -/
theorem SameQueue.erase (h : SameQueue memory sql) {id : String} {cond : JobRow → Sql.Truth}
    (hcond : ∀ r, sql.get? r.submissionID = some r →
      (cond r = Sql.isTrue ↔ r.submissionID = id)) :
    SameQueue (memory.erase id) (Sql.deleteWhere cond sql) := by
  intro k
  rw [Sql.get?_deleteWhere, Table.get?_erase]
  have hk := h k
  cases hr : sql.get? k with
  | none =>
    rw [hr] at hk
    generalize memory.get? k = row at hk ⊢
    cases hk
    simp
  | some r =>
    obtain rfl := Table.key_of_get? hr
    have hiff := hcond r hr
    rw [hr] at hk
    by_cases hid : r.submissionID = id
    · simp [Option.filter, Sql.meets, hiff, hid]
    · simpa [Option.filter, Sql.meets, hiff, hid] using hk

theorem SameQueue.delete (h : SameQueue memory sql) (id : String) :
    SameQueue (deleteJob memory id) (SQLStore.deleteJob sql id) :=
  h.erase fun r _ => by simp [SQLStore.idIs]

theorem Mirrors.repend {r : JobRow} {j : MemJob} (h : Mirrors r j) (now : Time) :
    Mirrors (if Sql.meets (SQLStore.expired now) r then
        { r with status := .pending, leaseOwner := none, leaseUntil := none } else r)
      (j.repend now) := by
  cases h with
  | pending =>
    simpa [Sql.meets, SQLStore.expired, SQLStore.statusIs, MemJob.repend] using Mirrors.pending
  | leased howner hend =>
    rename_i leaseEnd attempts
    by_cases hlt : leaseEnd < now
    · simpa [Sql.meets, SQLStore.expired, SQLStore.statusIs, MemJob.repend, hend, hlt] using
        Mirrors.pending
    · simpa [Sql.meets, SQLStore.expired, SQLStore.statusIs, MemJob.repend, hend, hlt] using
        Mirrors.leased howner hend

theorem SameQueue.repend (h : SameQueue memory sql) (now : Time) :
    SameQueue (rependExpired memory now) (SQLStore.rependExpired sql now) := by
  intro id
  rw [get?_rependExpired, SQLStore.rependExpired, Sql.get?_update]
  exact rel_map (fun r j hm => hm.repend now) (h id)

theorem MemJob.repend_createdAt (now : Time) (j : MemJob) :
    (j.repend now).createdAt = j.createdAt := by
  unfold MemJob.repend
  split <;> rfl

theorem Stamped.repend (h : Stamped memory) (now : Time) : Stamped (rependExpired memory now) := by
  intro id id' j j' hj hj' heq
  rw [get?_rependExpired, Option.map_eq_some_iff] at hj hj'
  obtain ⟨i, hi, rfl⟩ := hj
  obtain ⟨i', hi', rfl⟩ := hj'
  rw [MemJob.repend_createdAt, MemJob.repend_createdAt] at heq
  exact h id id' i i' hi hi' heq

theorem SQLStore.claimable_iff {id : String} {r : JobRow} :
    SQLStore.claimable id r = Sql.isTrue ↔ r.submissionID = id ∧ r.status = .pending := by
  simp [SQLStore.claimable, SQLStore.idIs, SQLStore.statusIs]

theorem SQLStore.leaseTo_self {id owner : String} {leaseEnd : Time} {r : JobRow}
    (hr : sql.get? id = some r) (hpending : r.status = .pending) :
    (SQLStore.leaseTo id owner leaseEnd sql).get? id =
      some { r with status := .leased, leaseOwner := some owner, leaseUntil := some leaseEnd
                    attempts := r.attempts + 1 } := by
  have hmeets : Sql.meets (SQLStore.claimable id) r = true := by
    simpa [Sql.meets, SQLStore.claimable_iff, hpending] using Table.key_of_get? hr
  rw [SQLStore.leaseTo, Sql.get?_update, hr, Option.map_some, if_pos hmeets]

theorem SQLStore.leaseTo_ne {id owner k : String} {leaseEnd : Time} (hk : k ≠ id) :
    (SQLStore.leaseTo id owner leaseEnd sql).get? k = sql.get? k := by
  rw [SQLStore.leaseTo, Sql.get?_update]
  cases hr : sql.get? k with
  | none => rfl
  | some r =>
    have hmeets : Sql.meets (SQLStore.claimable id) r = false := by
      simp [Sql.meets, SQLStore.claimable_iff, Table.key_of_get? hr, hk]
    rw [Option.map_some, if_neg (by simp [hmeets])]

/-- The row that was picked, leased in both stores. -/
theorem SameQueue.lease (h : SameQueue memory sql) {r : JobRow} {j : MemJob} (hm : Mirrors r j)
    (hj : memory.get? j.submissionID = some j) (hpending : j.status = .pending) {owner : String}
    (howner : owner ≠ "") {leaseEnd : Time} (hend : leaseEnd ≠ 0) :
    SameQueue (memory.put (j.claim owner leaseEnd))
      (SQLStore.leaseTo r.submissionID owner leaseEnd sql) := by
  intro k
  have hput : (memory.put (j.claim owner leaseEnd)).get? k =
      if k = j.submissionID then some (j.claim owner leaseEnd) else memory.get? k :=
    Table.get?_put memory (j.claim owner leaseEnd) k
  rw [hput]
  by_cases hk : k = j.submissionID
  · subst hk
    obtain ⟨r', hr', hm'⟩ := h.of_memory hj
    rw [if_pos rfl, hm.id_eq, SQLStore.leaseTo_self hr' (hm'.status_eq.trans hpending)]
    cases hm' with
    | pending => exact .some (.leased howner hend)
    | leased => cases hpending
  · rw [if_neg hk, SQLStore.leaseTo_ne (hm.id_eq ▸ hk)]
    exact h k

theorem SameQueue.claim (h : SameQueue memory sql) (hstamped : Stamped memory)
    {order sqlOrder : List String} {now : Time}
    (horder : (rependExpired memory now).Enumerates order)
    (hsqlOrder : (SQLStore.rependExpired sql now).Enumerates sqlOrder) (owner : String)
    (lease : Duration) :
    (claimJob memory order owner lease now).1 =
        (SQLStore.claimJob sql sqlOrder owner lease now).1 ∧
      (now + effectiveLease lease ≠ 0 → SameQueue (claimJob memory order owner lease now).2
        (SQLStore.claimJob sql sqlOrder owner lease now).2) := by
  unfold claimJob SQLStore.claimJob
  by_cases howner : owner = ""
  · simpa [howner] using fun _ => h
  · have hpended := h.repend now
    have holdest := hpended.oldest (hstamped.repend now) horder hsqlOrder
    simp only [howner, if_false]
    generalize rependExpired memory now = mem₁ at *
    generalize SQLStore.rependExpired sql now = sql₁ at *
    cases hpick : pickOldest mem₁ order with
    | none =>
      rw [hpick] at holdest
      generalize Sql.selectFirst (SQLStore.statusIs .pending) JobRow.createdAt sql₁ sqlOrder = sel
        at holdest
      cases holdest
      exact ⟨rfl, fun _ => hpended⟩
    | some b =>
      rw [hpick] at holdest
      generalize Sql.selectFirst (SQLStore.statusIs .pending) JobRow.createdAt sql₁ sqlOrder = sel
        at holdest
      cases holdest with
      | some hm =>
        rename_i r
        obtain ⟨hb, hbp⟩ := pickOldest_pending hpick
        obtain ⟨r', hr', hm'⟩ := hpended.of_memory hb
        have hr'p : r'.status = .pending := hm'.status_eq.trans hbp
        -- the second statement finds the row that the first one selected
        have haffected : Sql.affected (SQLStore.claimable b.submissionID) sql₁ ≠ 0 :=
          (Sql.affected_pos.mpr
            ⟨_, r', hr', SQLStore.claimable_iff.mpr ⟨hm'.id_eq, hr'p⟩⟩).ne'
        simp only [hm.id_eq, haffected, if_false, SQLStore.leaseTo_self hr' hr'p]
        refine ⟨?_, fun hend => ?_⟩
        · rw [hm'.attempts_eq]
          rfl
        · exact hm.id_eq ▸ hpended.lease hm hb hbp howner hend

theorem SQLStore.heldBy_iff {id owner : String} {r : JobRow} :
    SQLStore.heldBy id owner r = Sql.isTrue ↔
      r.submissionID = id ∧ r.status = .leased ∧ r.leaseOwner = some owner := by
  simp [SQLStore.heldBy, SQLStore.idIs, SQLStore.statusIs, SQLStore.ownerIs]

/-- The row that the heartbeat is for, seen by both stores. -/
theorem Mirrors.held {r : JobRow} {j : MemJob} (h : Mirrors r j) (owner : String) :
    SQLStore.heldBy j.submissionID owner r = Sql.isTrue ↔
      j.status = .leased ∧ j.leaseOwner = owner := by
  rw [SQLStore.heldBy_iff]
  cases h <;> simp

/-- The owner holds the job. -/
def Held (memory : JobTable) (id owner : String) : Prop :=
  ∃ j, memory.get? id = some j ∧ j.status = .leased ∧ j.leaseOwner = owner

/-- Both stores see the same rows held. -/
theorem SameQueue.held (h : SameQueue memory sql) {id owner k : String} {r : JobRow}
    (hr : sql.get? k = some r) :
    SQLStore.heldBy id owner r = Sql.isTrue ↔ k = id ∧ Held memory id owner := by
  obtain ⟨j, hj, hm⟩ := h.of_sql hr
  obtain rfl : j.submissionID = k := Table.key_of_get? hj
  constructor
  · intro htrue
    obtain rfl : j.submissionID = id := hm.id_eq ▸ (SQLStore.heldBy_iff.mp htrue).1
    exact ⟨rfl, j, hj, (hm.held owner).mp htrue⟩
  · rintro ⟨rfl, j', hj', hleased⟩
    rw [hj] at hj'
    cases hj'
    exact (hm.held owner).mpr hleased

theorem SameQueue.heartbeat_held (h : SameQueue memory sql) {id owner : String} {lease : Duration}
    {now : Time} (hheld : Held memory id owner) :
    (heartbeatJob memory id owner lease now).1 = (SQLStore.heartbeatJob sql id owner lease now).1 ∧
      (now + effectiveLease lease ≠ 0 → SameQueue (heartbeatJob memory id owner lease now).2
        (SQLStore.heartbeatJob sql id owner lease now).2) := by
  have ⟨j, hj, hleased, howner⟩ := hheld
  obtain ⟨r, hr, hm⟩ := h.of_memory hj
  obtain rfl : j.submissionID = id := Table.key_of_get? hj
  have hmemory : heartbeatJob memory j.submissionID owner lease now =
      (true, memory.put { j with leaseUntil := now + effectiveLease lease }) := by
    unfold heartbeatJob
    rw [hj]
    exact if_neg (by simp [hleased, howner])
  rw [hmemory]
  have htrue := (h.held hr).mpr ⟨rfl, hheld⟩
  refine ⟨?_, fun hend k => ?_⟩
  · simpa [SQLStore.heartbeatJob] using Sql.affected_pos.mpr ⟨_, r, hr, htrue⟩
  · have hput := Table.get?_put memory { j with leaseUntil := now + effectiveLease lease } k
    rw [SQLStore.heartbeatJob, Sql.get?_update, hput]
    by_cases hk : k = j.submissionID
    · subst hk
      rw [hr, if_pos rfl, Option.map_some, if_pos (by simpa [Sql.meets] using htrue)]
      cases hm with
      | pending => cases hleased
      | leased hne _ => exact .some (.leased hne hend)
    · rw [if_neg hk]
      cases hr' : sql.get? k with
      | none => simpa [hr'] using h k
      | some r' =>
        have hno : ¬ Sql.meets (SQLStore.heldBy j.submissionID owner) r' = true := by
          simpa [Sql.meets, h.held hr'] using fun hc => absurd hc hk
        rw [Option.map_some, if_neg hno]
        exact hr' ▸ h k

/-- No row is held, and neither store changes anything. -/
theorem SameQueue.heartbeat_missed (h : SameQueue memory sql) {id owner : String}
    {lease : Duration} {now : Time} (hheld : ¬ Held memory id owner) :
    heartbeatJob memory id owner lease now = (false, memory) ∧
      SQLStore.heartbeatJob sql id owner lease now = (false, sql) := by
  constructor
  · unfold heartbeatJob
    split
    · rfl
    · rename_i j hj
      refine if_pos ?_
      by_contra hno
      rw [not_or, not_not, not_not] at hno
      exact hheld ⟨j, hj, hno⟩
  · have hnone (k : String) (r : JobRow) (hr : sql.get? k = some r) :
        SQLStore.heldBy id owner r ≠ Sql.isTrue :=
      fun htrue => hheld ((h.held hr).mp htrue).2
    have hzero : ¬ 0 < Sql.affected (SQLStore.heldBy id owner) sql := by
      rw [Sql.affected_pos]
      rintro ⟨k, r, hr, htrue⟩
      exact hnone k r hr htrue
    refine Prod.ext (decide_eq_false hzero) (Table.ext_get? fun k => ?_)
    rw [SQLStore.heartbeatJob, Sql.get?_update]
    cases hr : sql.get? k with
    | none => rfl
    | some r => rw [Option.map_some, if_neg (by simpa [Sql.meets] using hnone k r hr)]

theorem SameQueue.heartbeat (h : SameQueue memory sql) (id owner : String) (lease : Duration)
    (now : Time) :
    (heartbeatJob memory id owner lease now).1 = (SQLStore.heartbeatJob sql id owner lease now).1 ∧
      (now + effectiveLease lease ≠ 0 → SameQueue (heartbeatJob memory id owner lease now).2
        (SQLStore.heartbeatJob sql id owner lease now).2) := by
  by_cases hheld : Held memory id owner
  · exact h.heartbeat_held hheld
  · rw [(h.heartbeat_missed hheld).1, (h.heartbeat_missed hheld).2]
    exact ⟨rfl, fun _ => h⟩

/-- The job is leased, and not to the one who completes it. -/
def Refused (memory : JobTable) (id owner : String) : Prop :=
  owner ≠ "" ∧ ∃ j, memory.get? id = some j ∧ j.status = .leased ∧ j.leaseOwner ≠ owner

theorem Mirrors.completable {r : JobRow} {j : MemJob} (h : Mirrors r j) (owner : String) :
    SQLStore.completable j.submissionID owner r = Sql.isTrue ↔
      (j.status = .leased → j.leaseOwner = owner) := by
  simp only [SQLStore.completable, SQLStore.idIs, SQLStore.ownerIs, SQLStore.statusIs,
    Sql.and_isTrue, Sql.or_isTrue, Sql.eq_isTrue]
  cases h <;> simp

/-- A completion that is not refused. -/
theorem SameQueue.complete (h : SameQueue memory sql) {id owner : String}
    (hok : ¬ Refused memory id owner) :
    (completeJob memory id owner).1 = .ok () ∧ (SQLStore.completeJob sql id owner).1 = .ok () ∧
      SameQueue (completeJob memory id owner).2 (SQLStore.completeJob sql id owner).2 := by
  have herase : completeJob memory id owner = (.ok (), memory.erase id) := by
    unfold completeJob
    split
    · rename_i hnone
      refine Prod.ext rfl (Table.ext_get? fun k => ?_)
      rw [Table.get?_erase]
      split
      · rename_i hk
        rw [hk, hnone]
      · rfl
    · rename_i j hj
      exact if_neg fun hc => hok ⟨hc.2.2, j, hj, hc.1, hc.2.1⟩
  rw [herase]
  unfold SQLStore.completeJob
  split
  · exact ⟨rfl, rfl, h.erase fun r _ => by simp [SQLStore.idIs]⟩
  · rename_i howner
    refine ⟨rfl, rfl, h.erase fun r hr => ?_⟩
    obtain ⟨j, hj, hm⟩ := h.of_sql hr
    constructor
    · intro htrue
      simp only [SQLStore.completable, SQLStore.idIs, Sql.and_isTrue, Sql.eq_isTrue,
        Option.some.injEq] at htrue
      exact htrue.1
    · rintro rfl
      rw [hm.id_eq, hm.completable]
      intro hleased
      by_contra hne
      exact hok ⟨howner, j, hj, hleased, hne⟩

/-- **Where the stores differ.** One says so, the other does not; neither
removes the job. -/
theorem SameQueue.refused (h : SameQueue memory sql) {id owner : String}
    (hrefused : Refused memory id owner) :
    completeJob memory id owner = (.error "job leased by another owner", memory) ∧
      SQLStore.completeJob sql id owner = (.ok (), sql) := by
  obtain ⟨howner, j, hj, hleased, hne⟩ := hrefused
  constructor
  · simp only [completeJob, hj]
    exact if_pos ⟨hleased, hne, howner⟩
  · simp only [SQLStore.completeJob, howner, if_false]
    refine Prod.ext rfl (Table.ext_get? fun k => ?_)
    rw [Sql.get?_deleteWhere]
    cases hr : sql.get? k with
    | none => rfl
    | some r =>
      have hno : SQLStore.completable id owner r ≠ Sql.isTrue := by
        obtain ⟨j', hj', hm⟩ := h.of_sql hr
        by_cases hk : k = id
        · subst hk
          rw [hj'] at hj
          cases hj
          obtain rfl : j.submissionID = k := Table.key_of_get? hj'
          rw [ne_eq, hm.completable]
          exact fun himp => hne (himp hleased)
        · simp [SQLStore.completable, SQLStore.idIs, Table.key_of_get? hr, hk]
      simp [Option.filter, Sql.meets, hno]

theorem pendingJobCount_eq (jobs : JobTable) : pendingJobCount jobs = jobs.size := by
  have hall : pendingJobCount jobs = Multiset.card jobs.rows.entries := by
    refine Multiset.countP_eq_card.mpr fun e _ => ?_
    cases e.2.status <;> simp
  rw [hall]
  exact (Multiset.card_map Sigma.fst jobs.rows.entries).symm

theorem SQLStore.pendingJobCount_eq (jobs : SqlJobTable) :
    SQLStore.pendingJobCount jobs = jobs.size := by
  rw [SQLStore.pendingJobCount, Sql.affected, Table.countRows_of_forall]
  intro k r _
  cases hst : r.status <;> simp [Sql.meets, SQLStore.statusIs, hst]

theorem SameQueue.count (h : SameQueue memory sql) :
    pendingJobCount memory = SQLStore.pendingJobCount sql := by
  rw [Store.pendingJobCount_eq, SQLStore.pendingJobCount_eq]
  exact Table.size_congr fun k => (h.isSome k).symm

end Calls

/-! ## Creation instants -/

section Created

variable {memory : JobTable} {now : Time} {id : String} {j : MemJob}

/-- The row was there before, created at the same instant. -/
def KeptCreated (memory : JobTable) (id : String) (j : MemJob) : Prop :=
  ∃ i, memory.get? id = some i ∧ i.createdAt = j.createdAt

theorem claimJob_created {order : List String} {owner : String} {lease : Duration}
    (h : (claimJob memory order owner lease now).2.get? id = some j) : KeptCreated memory id j := by
  have hrepend {i : MemJob} (hi : (rependExpired memory now).get? id = some i) :
      KeptCreated memory id i := by
    rw [get?_rependExpired, Option.map_eq_some_iff] at hi
    obtain ⟨i₀, hi₀, rfl⟩ := hi
    exact ⟨i₀, hi₀, (MemJob.repend_createdAt now i₀).symm⟩
  unfold claimJob at h
  split at h
  · exact ⟨j, h, rfl⟩
  · dsimp only at h
    split at h
    · exact hrepend h
    · rename_i b hpick
      have hput := Table.get?_put (rependExpired memory now)
        (b.claim owner (now + effectiveLease lease)) id
      rw [hput] at h
      split at h
      · rename_i hid
        cases h
        subst hid
        exact hrepend (i := b) (pickOldest_pending hpick).1
      · exact hrepend h

theorem heartbeatJob_created {k owner : String} {lease : Duration}
    (h : (heartbeatJob memory k owner lease now).2.get? id = some j) : KeptCreated memory id j := by
  unfold heartbeatJob at h
  split at h
  · exact ⟨j, h, rfl⟩
  · rename_i i hi
    split at h
    · exact ⟨j, h, rfl⟩
    · have hput := Table.get?_put memory { i with leaseUntil := now + effectiveLease lease } id
      rw [hput] at h
      split at h
      · rename_i hid
        cases h
        exact ⟨i, hid ▸ (Table.key_of_get? hi) ▸ hi, rfl⟩
      · exact ⟨j, h, rfl⟩

theorem erase_created {k : String} (h : (memory.erase k).get? id = some j) :
    KeptCreated memory id j := by
  rw [Table.get?_erase] at h
  split at h
  · cases h
  · exact ⟨j, h, rfl⟩

/-- A row is as old as it was, unless the call enqueued it. -/
theorem JobCall.created {c : JobCall} (h : (c.onMemory now memory).2.get? id = some j) :
    KeptCreated memory id j ∨ (c = .enqueue id ∧ j.createdAt = now) := by
  cases c with
  | enqueue k =>
    simp only [JobCall.onMemory, enqueueJob] at h
    have hfresh {fresh : MemJob} (hk : fresh.submissionID = k) (hnow : fresh.createdAt = now)
        (hput : (memory.put fresh).get? id = some j) :
        KeptCreated memory id j ∨ (JobCall.enqueue k = .enqueue id ∧ j.createdAt = now) := by
      rw [Table.get?_put] at hput
      split at hput
      · rename_i hid
        cases hput
        exact .inr ⟨by rw [hid, hk], hnow⟩
      · exact .inl ⟨j, hput, rfl⟩
    split at h
    · rename_i jobs hok
      split at hok
      · cases hok
      · split at hok
        · split at hok <;> cases hok
          · exact .inl ⟨j, h, rfl⟩
          · exact hfresh rfl rfl h
        · cases hok
          exact hfresh rfl rfl h
    · exact .inl ⟨j, h, rfl⟩
  | delete k => exact .inl (erase_created h)
  | claim owner lease order sqlOrder => exact .inl (claimJob_created h)
  | heartbeat k owner lease => exact .inl (heartbeatJob_created h)
  | complete k owner =>
    simp only [JobCall.onMemory, completeJob] at h
    split at h
    · exact .inl ⟨j, h, rfl⟩
    · split at h
      · exact .inl ⟨j, h, rfl⟩
      · exact .inl (erase_created h)
  | pendingCount => exact .inl ⟨j, h, rfl⟩

end Created

/-! ## Runs -/

/-- The end of the lease that the call grants. -/
def JobCall.leaseEnd (now : Time) : JobCall → Option Time
  | .claim _ lease _ _ | .heartbeat _ _ lease => some (now + effectiveLease lease)
  | _ => none

/-- Enqueues are at distinct instants, and no lease ends at the zero
time. -/
def Separate (s : BothStores) (a : JobCall × Time) : Prop :=
  (a.1.isEnqueue = true → a.2 ∉ s.enqueuedAt) ∧ a.1.leaseEnd a.2 ≠ some 0

instance (s : BothStores) (a : JobCall × Time) : Decidable (Separate s a) :=
  inferInstanceAs (Decidable (_ ∧ _))

/-- The one call on which the stores answer differently. -/
def JobCall.refused (memory : JobTable) : JobCall → Prop
  | .complete id owner => Refused memory id owner
  | _ => False

structure BothInv (s : BothStores) : Prop where
  same : SameQueue s.memory s.sql
  stamped : Stamped s.memory
  recorded : ∀ id j, s.memory.get? id = some j → j.createdAt ∈ s.enqueuedAt

/-- A call that is not refused has the same answer in both stores. -/
theorem BothInv.reply {s : BothStores} (h : BothInv s) {now : Time} {c : JobCall}
    (hlegal : c.Legal s now) (hok : ¬ c.refused s.memory) :
    (c.onMemory now s.memory).1 = (c.onSQL now s.sql).1 := by
  cases c with
  | enqueue id => exact (h.same.enqueue now id).1
  | delete id => rfl
  | claim owner lease order sqlOrder =>
    exact congrArg JobReply.ofClaim (h.same.claim h.stamped hlegal.1 hlegal.2 owner lease).1
  | heartbeat id owner lease =>
    exact congrArg JobReply.beat (h.same.heartbeat id owner lease now).1
  | complete id owner =>
    obtain ⟨hmemory, hsql, -⟩ := h.same.complete hok
    simp only [JobCall.onMemory, JobCall.onSQL, hmemory, hsql]
  | pendingCount => exact congrArg JobReply.count h.same.count

theorem BothInv.sameQueue {s : BothStores} (h : BothInv s) {now : Time} {c : JobCall}
    (hlegal : c.Legal s now) (hend : c.leaseEnd now ≠ some 0) :
    SameQueue (c.onMemory now s.memory).2 (c.onSQL now s.sql).2 := by
  cases c with
  | enqueue id => exact (h.same.enqueue now id).2
  | delete id => exact h.same.delete id
  | claim owner lease order sqlOrder =>
    exact (h.same.claim h.stamped hlegal.1 hlegal.2 owner lease).2 fun hz => hend (congrArg some hz)
  | heartbeat id owner lease =>
    exact (h.same.heartbeat id owner lease now).2 fun hz => hend (congrArg some hz)
  | complete id owner =>
    by_cases hrefused : Refused s.memory id owner
    · obtain ⟨hmemory, hsql⟩ := h.same.refused hrefused
      simpa only [JobCall.onMemory, JobCall.onSQL, hmemory, hsql] using h.same
    · exact (h.same.complete hrefused).2.2
  | pendingCount => exact h.same

/-- **The step lemma.** -/
theorem BothInv.step {s s' : BothStores} {a : JobCall × Time} (h : BothInv s)
    (hsep : Separate s a) (hstep : bothSys.step a s = some s') : BothInv s' := by
  obtain ⟨c, now⟩ := a
  simp only [bothSys] at hstep
  split at hstep
  · rename_i hlegal
    cases hstep
    refine ⟨h.sameQueue hlegal hsep.2, fun id id' j j' hj hj' heq => ?_, fun id j hj => ?_⟩
    · rcases JobCall.created hj with ⟨i, hi, hcreated⟩ | ⟨rfl, hnow⟩
      · rcases JobCall.created hj' with ⟨i', hi', hcreated'⟩ | ⟨rfl, hnow'⟩
        · exact h.stamped id id' i i' hi hi' (hcreated.trans (heq.trans hcreated'.symm))
        · -- a new row and an old one of the same instant
          refine absurd (h.recorded id i hi) ?_
          rw [hcreated, heq, hnow']
          exact hsep.1 rfl
      · rcases JobCall.created hj' with ⟨i', hi', hcreated'⟩ | ⟨hc, -⟩
        · refine absurd (h.recorded id' i' hi') ?_
          rw [hcreated', ← heq, hnow]
          exact hsep.1 rfl
        · exact JobCall.enqueue.inj hc
    · dsimp only
      rcases JobCall.created hj with ⟨i, hi, hcreated⟩ | ⟨rfl, hnow⟩
      · rw [← hcreated]
        split
        · exact List.mem_cons_of_mem _ (h.recorded id i hi)
        · exact h.recorded id i hi
      · rw [hnow]
        exact List.mem_cons_self
  · cases hstep

theorem bothInv_reach {s : BothStores} (h : bothSys.Reach Separate s) : BothInv s := by
  refine h.invariant (I := BothInv) ?_ fun _ _ _ hinv hsep hstep => hinv.step hsep hstep
  rintro s rfl
  refine ⟨fun _ => .none, ?_, ?_⟩
  · intro id id' j j' hj
    cases hj
  · intro id j hj
    cases hj

/-- **The SQL queue and the memory queue are the same queue.** After every
sequence of calls on both, at one clock, with distinct enqueue instants
and no lease that ends at the zero time: the same jobs are queued in the
same state, and the next call returns the same, except for a completion
of a leased job by another owner. That one errs in the memory store,
succeeds in the SQL store and changes neither. -/
theorem sql_queue_mirrors_memory {s : BothStores} (h : bothSys.Reach Separate s) :
    SameQueue s.memory s.sql ∧
      ∀ (c : JobCall) (now : Time), c.Legal s now →
        (¬ c.refused s.memory → (c.onMemory now s.memory).1 = (c.onSQL now s.sql).1) ∧
        (c.refused s.memory →
          c.onMemory now s.memory = (.failed "job leased by another owner", s.memory) ∧
          c.onSQL now s.sql = (.done, s.sql)) := by
  have hinv := bothInv_reach h
  refine ⟨hinv.same, fun c now hlegal => ⟨hinv.reply hlegal, fun hrefused => ?_⟩⟩
  cases c with
  | complete id owner =>
    obtain ⟨hmemory, hsql⟩ := hinv.same.refused hrefused
    simp only [JobCall.onMemory, JobCall.onSQL, hmemory, hsql]
    exact ⟨rfl, rfl⟩
  | _ => cases hrefused

/-! ## Closed runs -/

def noJobs : BothStores := { memory := .empty, sql := .empty, enqueuedAt := [] }

/-- A job is claimed by `a` under a lease of one instant. -/
def leasedAt (now : Time) : List (JobCall × Time) :=
  [(.enqueue "sub_a", now), (.claim "a" 1 ["sub_a"] ["sub_a"], now)]

/-- A worker that lost its lease completes the job of another. -/
theorem sql_queue_mirrors_memory_stolen :
    ∃ s, bothSys.Reach Separate s ∧ SameQueue s.memory s.sql ∧
      JobCall.onMemory 9 s.memory (.complete "sub_a" "b") =
        (.failed "job leased by another owner", s.memory) ∧
      JobCall.onSQL 9 s.sql (.complete "sub_a" "b") = (.done, s.sql) := by
  have hrun : (bothSys.run Separate (leasedAt 5) noJobs).map (fun s => s.memory.get? "sub_a") =
      some (some ⟨"sub_a", .leased, 5, "a", 6, 1⟩) := by
    decide +kernel
  obtain ⟨s, hreach, hrow⟩ := (Sys.Reach.init rfl).of_run_map hrun
  obtain ⟨hsame, hreply⟩ := sql_queue_mirrors_memory hreach
  refine ⟨s, hreach, hsame, (hreply (.complete "sub_a" "b") 9 trivial).2 ?_⟩
  exact ⟨by decide, _, hrow, rfl, by decide⟩

/-- With an EMPTY owner, who is not the owner either, both stores remove a
leased job and return nothing. And a lease that ends at the zero time has
no end in the memory store: the SQL store claims the job again, the memory
store does not. -/
theorem zero_lease_and_empty_owner :
    (∃ s, bothSys.Reach Separate s ∧
      s.memory.get? "sub_a" = some ⟨"sub_a", .leased, 5, "a", 6, 1⟩ ∧
      (JobCall.onMemory 9 s.memory (.complete "sub_a" "")).1 = .done ∧
      (JobCall.onMemory 9 s.memory (.complete "sub_a" "")).2.get? "sub_a" = none) ∧
    (∃ s, bothSys.Reach (fun s a => a.1.isEnqueue = true → a.2 ∉ s.enqueuedAt) s ∧
      (JobCall.onMemory 1 s.memory (.claim "b" 1 ["sub_a"] ["sub_a"])).1 = .claimed none ∧
      (JobCall.onSQL 1 s.sql (.claim "b" 1 ["sub_a"] ["sub_a"])).1 =
        .claimed (some ("sub_a", 2))) := by
  constructor
  · have hrun : (bothSys.run Separate (leasedAt 5) noJobs).map (fun s =>
        (s.memory.get? "sub_a", (JobCall.onMemory 9 s.memory (.complete "sub_a" "")).1,
          (JobCall.onMemory 9 s.memory (.complete "sub_a" "")).2.get? "sub_a")) =
        some (some ⟨"sub_a", .leased, 5, "a", 6, 1⟩, .done, none) := by
      decide +kernel
    obtain ⟨s, hreach, heq⟩ := (Sys.Reach.init rfl).of_run_map hrun
    simp only [Prod.mk.injEq] at heq
    exact ⟨s, hreach, heq⟩
  · have hrun : (bothSys.run (fun s a => a.1.isEnqueue = true → a.2 ∉ s.enqueuedAt)
        (leasedAt (-1)) noJobs).map (fun s =>
          ((JobCall.onMemory 1 s.memory (.claim "b" 1 ["sub_a"] ["sub_a"])).1,
            (JobCall.onSQL 1 s.sql (.claim "b" 1 ["sub_a"] ["sub_a"])).1)) =
        some (.claimed none, .claimed (some ("sub_a", 2))) := by
      decide +kernel
    obtain ⟨s, hreach, heq⟩ := (Sys.Reach.init rfl).of_run_map hrun
    simp only [Prod.mk.injEq] at heq
    exact ⟨s, hreach, heq⟩

end Scintx.Store
