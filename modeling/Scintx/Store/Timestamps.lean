/-
Scintx.Store.Timestamps — the job queue of the SQL store over its TEXT
columns (`internal/store/job_queue.go`, table `jobs`).

`created_at` and `lease_until` hold the text of an instant in the layout
`time.RFC3339Nano`, and `ClaimJob` compares texts: `lease_until < ?` finds
the leases that are over, `ORDER BY created_at` the oldest job. A row here
holds the instants, and each comparison is made on their texts, byte by
byte.

The layout drops the zeros at the end of a fraction, so texts do not
always come in the order of their instants. Where they do
(`TimesOrdered`), `ClaimJob` does what it does over instants
(`timestamp_columns`); where they do not, it takes a lease away that has
half a second to go, and claims the later of two jobs
(`live_lease_claimed`).
-/
import Scintx.Lib.Calendar
import Scintx.Store.SqlJobQueue

namespace Scintx.Store

open Scintx.Lib Scintx.Lib.Calendar Scintx.Api

namespace SQLStore

/-- What is stored of an instant. -/
def timestamp (t : Time) : String := rfc3339Nano t

/-- `status = 'leased' AND lease_until IS NOT NULL AND lease_until < ?`,
over texts. -/
def expiredText (now : Time) (r : JobRow) : Sql.Truth :=
  Sql.and (statusIs .leased r)
    (Sql.and (Sql.isNotNull (r.leaseUntil.map timestamp))
      (Sql.lt (r.leaseUntil.map timestamp) (some (timestamp now))))

/-- `SET status = 'pending', lease_owner = NULL, lease_until = NULL`. -/
def rependRow (r : JobRow) : JobRow :=
  { r with status := .pending, leaseOwner := none, leaseUntil := none }

theorem rependRow_submissionID (r : JobRow) : (rependRow r).submissionID = r.submissionID := rfl

/-- The first statement of `ClaimJob`, for any way to compare leases with
the clock. -/
def rependBy (ended : JobRow → Sql.Truth) (jobs : SqlJobTable) : SqlJobTable :=
  Sql.update ended rependRow rependRow_submissionID jobs

/-- The statements that follow the selection. -/
def claimBest (jobs pended : SqlJobTable) (owner : String) (lease : Duration) (now : Time) :
    Option JobRow → Except String (Option (String × Nat)) × SqlJobTable
  | none => (.ok none, pended)
  | some best =>
    let id := best.submissionID
    let leased := leaseTo id owner (now + effectiveLease lease) pended
    if Sql.affected (claimable id) pended = 0 then (.ok none, leased)
    else
      match leased.get? id with
      | some r => (.ok (some (id, r.attempts)), leased)
      | none => (.error "sql: no rows in result set", jobs)

/-- `ClaimJob`, for any way to compare leases with the clock and creation
times with each other. -/
def claimJobBy {β : Type} [LinearOrder β] (ended : JobRow → Sql.Truth) (createdAt : JobRow → β)
    (jobs : SqlJobTable) (order : List String) (owner : String) (lease : Duration) (now : Time) :
    Except String (Option (String × Nat)) × SqlJobTable :=
  if owner = "" then (.error "empty lease owner", jobs)
  else
    claimBest jobs (rependBy ended jobs) owner lease now
      (Sql.selectFirst (statusIs .pending) createdAt (rependBy ended jobs) order)

/-- `ClaimJob` over texts. -/
def claimJobText (jobs : SqlJobTable) (order : List String) (owner : String) (lease : Duration)
    (now : Time) : Except String (Option (String × Nat)) × SqlJobTable :=
  claimJobBy (expiredText now) (fun r => timestamp r.createdAt) jobs order owner lease now

theorem claimJob_eq (jobs : SqlJobTable) (order : List String) (owner : String) (lease : Duration)
    (now : Time) :
    claimJob jobs order owner lease now =
      claimJobBy (expired now) JobRow.createdAt jobs order owner lease now := by
  unfold claimJob claimJobBy
  split
  · rfl
  · unfold claimBest rependExpired rependBy
    rfl

/-! ## Texts in the order of their instants -/

/-- The years 0000 to 9999. -/
def InYears (t : Time) : Prop := FourDigits (seconds t)

instance (t : Time) : Decidable (InYears t) := inferInstanceAs (Decidable (FourDigits _))

/-- The clock reading and the times of all rows: their texts come in their
order. -/
structure TimesOrdered (jobs : SqlJobTable) (now : Time) : Prop where
  now_year : InYears now
  created_year : ∀ id r, jobs.get? id = some r → InYears r.createdAt
  lease_year : ∀ id r, jobs.get? id = some r → ∀ u ∈ r.leaseUntil, InYears u
  created : ∀ id r, jobs.get? id = some r → ∀ id' r', jobs.get? id' = some r' →
    TextOrdered r.createdAt r'.createdAt
  lease : ∀ id r, jobs.get? id = some r → ∀ u ∈ r.leaseUntil, TextOrdered u now

theorem expiredText_eq {now : Time} {r : JobRow} (hnow : InYears now)
    (hyear : ∀ u ∈ r.leaseUntil, InYears u) (hord : ∀ u ∈ r.leaseUntil, TextOrdered u now) :
    expiredText now r = expired now r := by
  unfold expiredText expired
  cases hlease : r.leaseUntil with
  | none => rfl
  | some u =>
    have hlt := (hord u hlease).lt_iff (hyear u hlease) hnow
    have hcond : Sql.lt (some (timestamp u)) (some (timestamp now)) =
        Sql.lt (some u) (some now) := by
      simp only [Sql.lt, timestamp, Option.bind_some, Option.map_some, hlt]
    rw [Option.map_some, hcond]
    rfl

/-- Pending a job again does not change when it was created. -/
theorem created_of_repend {jobs : SqlJobTable} {now : Time} {id : String} {r : JobRow}
    (h : (rependBy (expired now) jobs).get? id = some r) :
    ∃ r₀, jobs.get? id = some r₀ ∧ r.createdAt = r₀.createdAt := by
  rw [rependBy, Sql.get?_update, Option.map_eq_some_iff] at h
  obtain ⟨r₀, hget, hr⟩ := h
  refine ⟨r₀, hget, ?_⟩
  rw [← hr]
  split
  · rfl
  · rfl

theorem TimesOrdered.claimJobText_eq {jobs : SqlJobTable} {now : Time}
    (h : TimesOrdered jobs now) (order : List String) (owner : String) (lease : Duration) :
    claimJobText jobs order owner lease now = claimJob jobs order owner lease now := by
  have hpended : rependBy (expiredText now) jobs = rependBy (expired now) jobs :=
    Sql.update_congr fun id r hr =>
      expiredText_eq h.now_year (h.lease_year id r hr) (h.lease id r hr)
  have hselect : Sql.selectFirst (statusIs .pending) (fun r => timestamp r.createdAt)
        (rependBy (expired now) jobs) order =
      Sql.selectFirst (statusIs .pending) JobRow.createdAt (rependBy (expired now) jobs) order := by
    refine Sql.selectFirst_congr ?_
    intro id r hr id' r' hr'
    obtain ⟨r₀, hr₀, hcreated⟩ := created_of_repend hr
    obtain ⟨r₀', hr₀', hcreated'⟩ := created_of_repend hr'
    rw [hcreated, hcreated']
    exact (h.created id r₀ hr₀ id' r₀' hr₀').lt_iff (h.created_year id r₀ hr₀)
      (h.created_year id' r₀' hr₀')
  rw [claimJobText, claimJob_eq, claimJobBy, claimJobBy, hpended, hselect]

/-- **Timestamp columns.** Two timestamps of the years 0000 to 9999
compare as their instants do exactly if the instants are the same, are in
different seconds, or neither fraction begins with the other. Where that
is so of the clock and all rows, `ClaimJob` ends the leases that are over
and no other, and claims the job that was enqueued first. -/
theorem timestamp_columns (t t' now : Time) (jobs : SqlJobTable) :
    (InYears t → InYears t' →
      (((timestamp t < timestamp t' ↔ t < t') ∧ (timestamp t' < timestamp t ↔ t' < t)) ↔
        TextOrdered t t')) ∧
    (TimesOrdered jobs now → ∀ (order : List String) (owner : String) (lease : Duration),
      claimJobText jobs order owner lease now = claimJob jobs order owner lease now) := by
  constructor
  · intro h h'
    exact rfc3339Nano_order_iff h h'
  · intro h order owner lease
    exact h.claimJobText_eq order owner lease

/-! ## Closed cases -/

/-- 2026-01-01T00:00:00Z. -/
def newYear : Time := 63902822400000000000

/-- A job leased to `a` until half a second past `newYear`, and two that
wait, enqueued at `newYear` and half a second later. -/
def twoWaiting : SqlJobTable :=
  ((Table.empty.put
    { submissionID := "sub_a", status := .leased, createdAt := newYear - 1000000000
      leaseOwner := some "a", leaseUntil := some (newYear + 500000000), attempts := 1 }).put
    { submissionID := "sub_b", status := .pending, createdAt := newYear
      leaseOwner := none, leaseUntil := none, attempts := 0 }).put
    { submissionID := "sub_c", status := .pending, createdAt := newYear + 500000000
      leaseOwner := none, leaseUntil := none, attempts := 0 }

/-- With one clock reading in another second, and one whose fraction
differs in a digit. -/
theorem timestamp_columns_claim :
    let jobs : SqlJobTable := Table.empty.put
      { submissionID := "sub_a", status := .leased, createdAt := newYear
        leaseOwner := some "a", leaseUntil := some (newYear + 250000000), attempts := 1 }
    (timestamp newYear < timestamp (newYear + 1000000001) ∧
      ¬timestamp (newYear + 1000000001) < timestamp newYear) ∧
    claimJobText jobs ["sub_a"] "b" 1 (newYear + 100000000) =
      claimJob jobs ["sub_a"] "b" 1 (newYear + 100000000) := by
  intro jobs
  have hrow {id : String} {r : JobRow} (hr : jobs.get? id = some r) :
      r.createdAt = newYear ∧ r.leaseUntil = some (newYear + 250000000) := by
    rw [Table.get?_put] at hr
    split at hr
    · cases hr
      exact ⟨rfl, rfl⟩
    · rw [Table.get?_empty] at hr
      cases hr
  have hyear : InYears newYear := by decide +kernel
  have hlease : InYears (newYear + 250000000) := by decide +kernel
  have htimes : TimesOrdered jobs (newYear + 100000000) := by
    refine ⟨by decide +kernel, ?_, ?_, ?_, ?_⟩
    · intro id r hr
      rw [(hrow hr).1]
      exact hyear
    · intro id r hr u hu
      rw [(hrow hr).2] at hu
      cases hu
      exact hlease
    · intro id r hr id' r' hr'
      rw [(hrow hr).1, (hrow hr').1]
      exact .inl rfl
    · intro id r hr u hu
      rw [(hrow hr).2] at hu
      cases hu
      decide +kernel
  obtain ⟨hiff, hclaim⟩ :=
    timestamp_columns newYear (newYear + 1000000001) (newYear + 100000000) jobs
  have horder := (hiff hyear (by decide +kernel)).mpr (by decide +kernel)
  refine ⟨⟨horder.1.mpr (by decide), ?_⟩, hclaim htimes _ _ _⟩
  intro h
  exact absurd (horder.2.mp h) (by decide)

/-- At `newYear` the lease of `a` has half a second to go, and `b` gets
the job; so it is without that job, when the later one is claimed first. -/
theorem live_lease_claimed :
    timestamp newYear = "2026-01-01T00:00:00Z" ∧
      timestamp (newYear + 500000000) = "2026-01-01T00:00:00.5Z" ∧
      timestamp (newYear + 500000000) < timestamp newYear ∧
      (claimJobText twoWaiting ["sub_a", "sub_b", "sub_c"] "b" 1 newYear).1 =
        .ok (some ("sub_a", 2)) ∧
      (claimJob twoWaiting ["sub_a", "sub_b", "sub_c"] "b" 1 newYear).1 =
        .ok (some ("sub_b", 1)) ∧
      (claimJobText (twoWaiting.erase "sub_a") ["sub_b", "sub_c"] "b" 1 newYear).1 =
        .ok (some ("sub_c", 1)) := by
  refine ⟨?_, ?_, ?_, ?_, ?_, ?_⟩ <;> decide +kernel

end SQLStore

end Scintx.Store
