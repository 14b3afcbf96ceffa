/-
Scintx.Store.JobQueueTheorems — a claimed job is its owner's until the
lease ends.

Everything follows from what ONE call can do to ONE row: `RowStep` lists
the six cases, `exec_rowStep` proves that there are no others (the bulk
re-pending loop and the pick loop included), and no later proof opens a
store function again. Over a run, the row of a claimed job is in one of
the three phases of `Phase`: held, past its lease end, or completed by
its owner.
-/
import Scintx.Store.JobQueue

namespace Scintx.Store

open Scintx.Lib Scintx.Api

/-! ## The two loops of `ClaimJob` -/

theorem get?_rependExpired (jobs : JobTable) (now : Time) (id : String) :
    (rependExpired jobs now).get? id = (jobs.get? id).map (MemJob.repend now) :=
  Table.get?_mapRows _ _ jobs id

/-- The row is in the table and pending. -/
def PendingRow (jobs : JobTable) (b : MemJob) : Prop :=
  jobs.get? b.submissionID = some b ∧ b.status = .pending

theorem pickRound_pending {jobs : JobTable} {best : Option MemJob} {id : String}
    (hbest : ∀ b, best = some b → PendingRow jobs b) :
    ∀ b, pickRound jobs best id = some b → PendingRow jobs b := by
  intro b hb
  unfold pickRound at hb
  split at hb
  · exact hbest b hb
  · rename_i j hj
    have hid : j.submissionID = id := Table.key_of_get? hj
    by_cases hp : j.status = .pending
    · simp only [hp, ne_eq, not_true_eq_false, if_false] at hb
      have hjrow : PendingRow jobs j := ⟨by rw [hid, hj], hp⟩
      split at hb
      · cases hb
        exact hjrow
      · split at hb
        · cases hb
          exact hjrow
        · exact hbest b hb
    · simp only [ne_eq, hp, not_false_eq_true, if_true] at hb
      exact hbest b hb

theorem pickOldest_pending {jobs : JobTable} {order : List String} {b : MemJob}
    (h : pickOldest jobs order = some b) : PendingRow jobs b := by
  -- the invariant of the loop is that the best row so far is a pending row
  suffices hfold : ∀ (best : Option MemJob), (∀ b, best = some b → PendingRow jobs b) →
      ∀ b, order.foldl (pickRound jobs) best = some b → PendingRow jobs b from
    hfold none (fun _ h => nomatch h) b h
  clear h
  induction order with
  | nil => exact fun best hbest => hbest
  | cons id order ih => exact fun best hbest => ih _ (pickRound_pending hbest)

theorem MemJob.repend_cases (now : Time) (b : MemJob) :
    b.repend now = b ∨
      (b.status = .leased ∧ b.leaseUntil < now ∧ (b.repend now).status = .pending) := by
  unfold MemJob.repend
  split
  · rename_i h
    exact .inr ⟨h.1, h.2.2, rfl⟩
  · exact .inl rfl

/-! ## What one call does to one row -/

/-- `RowStep j op at_ out r r'`: a call `op` at `at_` that returned `out`
took the row of `j` from `r` to `r'`. -/
inductive RowStep (j : String) :
    QueueOp → Time → QueueOut → Option MemJob → Option MemJob → Prop
  | keep {op at_ out r} (hclaim : ∀ n, out ≠ .claimed j n)
      (hbeat : ∀ a lease, op = .heartbeat j a lease → out = .beat false) :
      RowStep j op at_ out r r
  | enqueued {at_} {b : MemJob} (hb : b.status = .pending) :
      RowStep j (.enqueue j) at_ .done none (some b)
  | repended {owner lease now order at_ out} {b b' : MemJob} (hb : b.status = .leased)
      (hend : b.leaseUntil < now) (hb' : b'.status = .pending)
      (hclaim : ∀ n, out ≠ .claimed j n) :
      RowStep j (.claim owner lease now order) at_ out (some b) (some b')
  | claimed {owner lease now order at_ n} {b b' : MemJob}
      (hb : b.status = .pending ∨ b.leaseUntil < now) (hst : b'.status = .leased)
      (howner : b'.leaseOwner = owner) (huntil : b'.leaseUntil = now + effectiveLease lease) :
      RowStep j (.claim owner lease now order) at_ (.claimed j n) (some b) (some b')
  | beaten {owner lease at_} {b : MemJob} (hb : b.status = .leased)
      (howner : b.leaseOwner = owner) :
      RowStep j (.heartbeat j owner lease) at_ (.beat true) (some b)
        (some { b with leaseUntil := at_ + effectiveLease lease })
  | completed {owner at_} {b : MemJob}
      (hb : b.status = .leased → b.leaseOwner ≠ owner → owner = "") :
      RowStep j (.complete j owner) at_ .done (some b) none

theorem rowStep_enqueue (j id : String) (at_ : Time) (jobs : JobTable) :
    RowStep j (.enqueue id) at_ ((QueueOp.enqueue id).exec at_ jobs).1 (jobs.get? j)
      (((QueueOp.enqueue id).exec at_ jobs).2.get? j) := by
  simp only [QueueOp.exec, enqueueJob]
  by_cases hid : id = ""
  · simp only [hid, if_true]
    exact .keep (by simp) (by simp)
  simp only [hid, if_false]
  cases hrow : jobs.get? id with
  | some b =>
    have hb : b.status = .pending ∨ b.status = .leased := by cases b.status <;> simp
    simp only [hb, if_true]
    exact .keep (by simp) (by simp)
  | none =>
    simp only
    by_cases hj : j = id
    · subst hj
      rw [hrow, Table.get?_put_self]
      exact .enqueued rfl
    · rw [Table.get?_put_ne _ hj]
      exact .keep (by simp) (by simp)

/-- Re-pending alone, seen from one row. -/
theorem rowStep_repend {j owner : String} {lease : Duration} {now : Time} {order : List String}
    {at_ : Time} {out : QueueOut} (jobs : JobTable) (hout : ∀ n, out ≠ .claimed j n) :
    RowStep j (.claim owner lease now order) at_ out (jobs.get? j)
      ((rependExpired jobs now).get? j) := by
  rw [get?_rependExpired]
  cases hrow : jobs.get? j with
  | none => exact .keep hout (by simp)
  | some b =>
    rw [Option.map_some]
    rcases b.repend_cases now with hb | ⟨hb, hend, hb'⟩
    · rw [hb]
      exact .keep hout (by simp)
    · exact .repended hb hend hb' hout

theorem rowStep_claim (j owner : String) (lease : Duration) (now : Time)
    (order : List String) (at_ : Time) (jobs : JobTable) :
    RowStep j (.claim owner lease now order) at_
      ((QueueOp.claim owner lease now order).exec at_ jobs).1 (jobs.get? j)
      (((QueueOp.claim owner lease now order).exec at_ jobs).2.get? j) := by
  simp only [QueueOp.exec, claimJob]
  by_cases howner : owner = ""
  · simp only [howner, if_true]
    exact .keep (by simp) (by simp)
  simp only [howner, if_false]
  cases hpick : pickOldest (rependExpired jobs now) order with
  | none => exact rowStep_repend jobs (by simp)
  | some best =>
    obtain ⟨hrow, hpend⟩ := pickOldest_pending hpick
    simp only
    by_cases hj : j = best.submissionID
    · subst hj
      -- the picked row was pending before the loops or its lease was over
      rw [get?_rependExpired] at hrow
      obtain ⟨b, hb, hbest⟩ := Option.map_eq_some_iff.mp hrow
      rw [hb]
      have hput : ((rependExpired jobs now).put
          (best.claim owner (now + effectiveLease lease))).get? best.submissionID =
          some (best.claim owner (now + effectiveLease lease)) :=
        Table.get?_put_self _ (best.claim owner (now + effectiveLease lease))
      rw [hput]
      refine .claimed ?_ rfl rfl rfl
      rcases b.repend_cases now with h | ⟨-, hend, -⟩
      · rw [h] at hbest
        exact .inl (hbest ▸ hpend)
      · exact .inr hend
    · rw [Table.get?_put_ne _ (by exact hj)]
      refine rowStep_repend jobs ?_
      intro n h
      exact hj (by cases h; rfl)

theorem rowStep_heartbeat (j id owner : String) (lease : Duration) (at_ : Time)
    (jobs : JobTable) :
    RowStep j (.heartbeat id owner lease) at_
      ((QueueOp.heartbeat id owner lease).exec at_ jobs).1 (jobs.get? j)
      (((QueueOp.heartbeat id owner lease).exec at_ jobs).2.get? j) := by
  simp only [QueueOp.exec, heartbeatJob]
  cases hrow : jobs.get? id with
  | none => exact .keep (by simp) (by simp)
  | some b =>
    simp only
    by_cases hb : b.status ≠ .leased ∨ b.leaseOwner ≠ owner
    · simp only [hb, if_true]
      exact .keep (by simp) (by simp)
    · simp only [hb, if_false]
      simp only [not_or, not_not] at hb
      have hid : b.submissionID = id := Table.key_of_get? hrow
      by_cases hj : j = id
      · subst hj
        rw [hrow, ← hid]
        have hput := Table.get?_put_self jobs
          { b with leaseUntil := at_ + effectiveLease lease }
        rw [show ({ b with leaseUntil := at_ + effectiveLease lease } : MemJob).submissionID =
          b.submissionID from rfl] at hput
        rw [hput]
        exact .beaten hb.1 hb.2
      · rw [Table.get?_put_ne _ (by rw [hid]; exact hj)]
        refine .keep (by simp) ?_
        rintro a l h
        cases h
        exact absurd rfl hj

theorem rowStep_complete (j id owner : String) (at_ : Time) (jobs : JobTable) :
    RowStep j (.complete id owner) at_
      ((QueueOp.complete id owner).exec at_ jobs).1 (jobs.get? j)
      (((QueueOp.complete id owner).exec at_ jobs).2.get? j) := by
  simp only [QueueOp.exec, completeJob]
  cases hrow : jobs.get? id with
  | none => exact .keep (by simp) (by simp)
  | some b =>
    simp only
    by_cases hb : b.status = .leased ∧ b.leaseOwner ≠ owner ∧ owner ≠ ""
    · simp only [hb, ne_eq, not_false_eq_true, and_self, if_true]
      exact .keep (by simp) (by simp)
    · rw [if_neg hb]
      by_cases hj : j = id
      · subst hj
        rw [hrow, Table.get?_erase_self]
        refine .completed ?_
        intro hst hown
        by_contra hne
        exact hb ⟨hst, hown, hne⟩
      · rw [Table.get?_erase_ne _ hj]
        exact .keep (by simp) (by simp)

/-- The inversion of a call at a row. -/
theorem exec_rowStep (j : String) (op : QueueOp) (at_ : Time) (jobs : JobTable) :
    RowStep j op at_ (op.exec at_ jobs).1 (jobs.get? j) ((op.exec at_ jobs).2.get? j) := by
  cases op with
  | enqueue id => exact rowStep_enqueue j id at_ jobs
  | claim owner lease now order => exact rowStep_claim j owner lease now order at_ jobs
  | heartbeat id owner lease => exact rowStep_heartbeat j id owner lease at_ jobs
  | complete id owner => exact rowStep_complete j id owner at_ jobs

/-! ## Which rows exist -/

/-- A claim neither adds nor removes a row, and returns one that is
there. -/
theorem RowStep.claim_rows {j owner : String} {lease : Duration} {now at_ : Time}
    {order : List String} {out : QueueOut} {r r' : Option MemJob}
    (h : RowStep j (.claim owner lease now order) at_ out r r') :
    r'.isSome = r.isSome ∧ ∀ n, out = .claimed j n → r.isSome = true := by
  cases h with
  | keep hclaim => exact ⟨rfl, fun n hn => absurd hn (hclaim n)⟩
  | repended | claimed => exact ⟨rfl, fun _ _ => rfl⟩

theorem hasJob_claimJob (jobs : JobTable) (order : List String) (owner : String) (lease : Duration)
    (now : Time) (j : String) :
    hasJob (claimJob jobs order owner lease now).2 j = hasJob jobs j := by
  have h := (exec_rowStep j (.claim owner lease now order) now jobs).claim_rows.1
  simp only [QueueOp.exec] at h
  unfold hasJob
  rw [← h]
  split <;> simp_all

theorem hasJob_of_claimed {jobs jobs' : JobTable} {order : List String} {owner id : String}
    {lease : Duration} {now : Time} {n : Nat}
    (h : claimJob jobs order owner lease now = (.ok (some (id, n)), jobs')) :
    hasJob jobs id = true :=
  (exec_rowStep id (.claim owner lease now order) now jobs).claim_rows.2 n
    (by simp only [QueueOp.exec, h])

theorem RowStep.heartbeat_rows {j id owner : String} {lease : Duration} {at_ : Time}
    {out : QueueOut} {r r' : Option MemJob}
    (h : RowStep j (.heartbeat id owner lease) at_ out r r') : r'.isSome = r.isSome := by
  cases h <;> rfl

theorem hasJob_heartbeatJob (jobs : JobTable) (id owner : String) (lease : Duration) (now : Time)
    (j : String) : hasJob (heartbeatJob jobs id owner lease now).2 j = hasJob jobs j :=
  (exec_rowStep j (.heartbeat id owner lease) now jobs).heartbeat_rows

/-- An enqueued submission has a row; no row goes. -/
theorem hasJob_enqueueJob {jobs jobs' : JobTable} {now : Time} {id : String}
    (h : enqueueJob jobs now id = .ok jobs') (j : String) :
    hasJob jobs' j = (decide (j = id) || hasJob jobs j) := by
  unfold enqueueJob at h
  split at h
  · cases h
  · simp only at h
    split at h
    · rename_i row hrow
      split at h
      · cases h
        by_cases hj : j = id <;> simp [hj, hasJob, hrow]
      · rename_i hactive
        cases hst : row.status <;> simp [hst] at hactive
    · cases h
      unfold hasJob
      rw [Table.get?_put]
      by_cases hj : j = id <;> simp [hj]

/-- A completion removes its own row or none. -/
theorem hasJob_completeJob (jobs : JobTable) (id owner j : String) :
    hasJob (completeJob jobs id owner).2 j = hasJob jobs j ∨
      j = id ∧ hasJob (completeJob jobs id owner).2 j = false := by
  unfold hasJob completeJob
  split
  · exact .inl rfl
  · split
    · exact .inl rfl
    · simp only [Table.get?_erase]
      by_cases hj : j = id <;> simp [hj]

theorem hasJob_deleteJob (jobs : JobTable) (id j : String) :
    hasJob (deleteJob jobs id) j = (!decide (j = id) && hasJob jobs j) := by
  rw [hasJob, deleteJob, Table.get?_erase, hasJob]
  by_cases hj : j = id <;> simp [hj]

/-! ## The lease of a claimed job along a run -/

/-- The row of `j` is leased to `a` until `leaseEnd`. -/
def LeasedTo (jobs : JobTable) (j a : String) (leaseEnd : Time) : Prop :=
  ∃ b, jobs.get? j = some b ∧ b.status = .leased ∧ b.leaseOwner = a ∧ b.leaseUntil = leaseEnd

/-- The lease end in force after an entry: a successful heartbeat of `a`
on `j` sets it anew. -/
def Entry.renew (j a : String) (leaseEnd : Time) (e : Entry) : Time :=
  match e.op, e.out with
  | .heartbeat id owner lease, .beat true =>
    if id = j ∧ owner = a then e.at_ + effectiveLease lease else leaseEnd
  | _, _ => leaseEnd

def leaseEndAfter (j a : String) (leaseEnd : Time) (es : List Entry) : Time :=
  es.foldl (Entry.renew j a) leaseEnd

/-- The entry is a `CompleteJob` of `a` that removed `j`. -/
def Entry.Removes (j a : String) (e : Entry) : Prop :=
  e.op = .complete j a ∧ e.out = .done ∧ e.pre.get? j ≠ none

/-- The entry is an `EnqueueJob` that filed a new row for `j`. -/
def Entry.Files (j : String) (e : Entry) : Prop :=
  e.op = .enqueue j ∧ e.out = .done ∧ e.pre.get? j = none

def RemovedBy (j a : String) (es : List Entry) : Prop :=
  ∃ e ∈ es, e.Removes j a

/-- `a` completed `j` and `j` was enqueued anew after that. -/
def EnqueuedAnew (j a : String) (es : List Entry) : Prop :=
  ∃ p e q, es = p ++ e :: q ∧ e.Removes j a ∧ ∃ e' ∈ q, e'.Files j

theorem RemovedBy.snoc {j a : String} {es : List Entry} (h : RemovedBy j a es) (e : Entry) :
    RemovedBy j a (es ++ [e]) := by
  obtain ⟨r, hr, hrem⟩ := h
  exact ⟨r, List.mem_append_left _ hr, hrem⟩

theorem EnqueuedAnew.snoc {j a : String} {es : List Entry} (h : EnqueuedAnew j a es)
    (e : Entry) : EnqueuedAnew j a (es ++ [e]) := by
  obtain ⟨p, r, q, rfl, hrem, f, hf, hfiles⟩ := h
  exact ⟨p, r, q ++ [e], by simp, hrem, f, List.mem_append_left _ hf, hfiles⟩

theorem RemovedBy.files {j a : String} {es : List Entry} {e : Entry} (h : RemovedBy j a es)
    (he : e.Files j) : EnqueuedAnew j a (es ++ [e]) := by
  obtain ⟨r, hr, hrem⟩ := h
  obtain ⟨p, q, rfl⟩ := List.append_of_mem hr
  exact ⟨p, r, q ++ [e], by simp, hrem, e, by simp, he⟩

/-- No row, or a pending one. -/
def Unleased (jobs : JobTable) (j : String) : Prop :=
  ∀ b, jobs.get? j = some b → b.status = .pending

/-- Where the row of a job claimed by `a` stands after the entries `es`,
as long as no other claim has returned it. -/
inductive Phase (j a : String) (leaseEnd : Time) (es : List Entry) (jobs : JobTable)
    (clock : Time) : Prop
  | held (h : LeasedTo jobs j a leaseEnd)
  | expired (hclock : leaseEnd < clock) (hrow : Unleased jobs j)
  | completed (hrem : RemovedBy j a es) (hrow : Unleased jobs j)
      (hnew : jobs.get? j ≠ none → EnqueuedAnew j a es)

theorem Entry.renew_of_not_beat {j a : String} {leaseEnd : Time} {e : Entry}
    (h : ∀ lease, e.op = .heartbeat j a lease → e.out = .beat false) :
    e.renew j a leaseEnd = leaseEnd := by
  obtain ⟨pre, op, at_, out⟩ := e
  unfold Entry.renew
  split
  · rename_i id owner lease hop hout
    split
    · rename_i hc
      obtain ⟨rfl, rfl⟩ := hc
      have := h lease hop
      simp_all
    · rfl
  · rfl

/-- The entry of a call. -/
abbrev QueueOp.entry (op : QueueOp) (at_ : Time) (jobs : JobTable) : Entry :=
  ⟨jobs, op, at_, (op.exec at_ jobs).1⟩

/-- One call keeps the phase, unless it returns `j` to a claimer. -/
theorem Phase.exec {j a : String} {leaseEnd : Time} {es : List Entry} {jobs : JobTable}
    {clock at_ : Time} {op : QueueOp} (h : Phase j a leaseEnd es jobs clock)
    (hclock : clock ≤ at_) (hlegal : op.Legal jobs at_)
    (hno : ∀ n, (op.entry at_ jobs).out ≠ .claimed j n) :
    Phase j a ((op.entry at_ jobs).renew j a leaseEnd) (es ++ [op.entry at_ jobs])
      (op.exec at_ jobs).2 at_ := by
  have hrow := exec_rowStep j op at_ jobs
  generalize hr : jobs.get? j = r at hrow
  generalize hr' : (op.exec at_ jobs).2.get? j = r' at hrow
  generalize hout : (op.exec at_ jobs).1 = out at hrow hno
  cases hrow with
  | keep hclaim hbeat =>
    rw [Entry.renew_of_not_beat (fun lease hop => by simpa [hout] using hbeat a lease hop)]
    cases h with
    | held hl => exact .held (by simpa only [LeasedTo, hr', hr] using hl)
    | expired hc hu =>
      exact .expired (Int.lt_of_lt_of_le hc hclock) (by simpa only [Unleased, hr', hr] using hu)
    | completed hrem hu hnew =>
      exact .completed (hrem.snoc _) (by simpa only [Unleased, hr', hr] using hu)
        (fun hne => (hnew (by rwa [hr, ← hr'])).snoc _)
  | enqueued hb =>
    rw [Entry.renew_of_not_beat (by simp)]
    have hu : Unleased ((QueueOp.enqueue j).exec at_ jobs).2 j := by
      intro b' h'
      rw [hr'] at h'
      cases h'
      exact hb
    cases h with
    | held hl =>
      obtain ⟨b, hget, -⟩ := hl
      rw [hr] at hget
      cases hget
    | expired hc _ => exact .expired (Int.lt_of_lt_of_le hc hclock) hu
    | completed hrem _ _ =>
      exact .completed (hrem.snoc _) hu (fun _ => hrem.files ⟨rfl, hout, hr⟩)
  | repended hb hend hb' hclaim =>
    rw [Entry.renew_of_not_beat (by simp)]
    rename_i owner lease now order b b'
    cases h with
    | held hl =>
      obtain ⟨c, hget, -, -, huntil⟩ := hl
      rw [hr] at hget
      cases hget
      refine .expired (Int.lt_of_lt_of_le (huntil ▸ hend) hlegal.1) ?_
      intro c h'
      rw [hr'] at h'
      cases h'
      exact hb'
    | expired _ hu | completed _ hu _ =>
      have := hu b hr
      simp [hb] at this
  | claimed => exact absurd hout (hno _)
  | beaten hb howner =>
    rename_i owner lease b
    cases h with
    | held hl =>
      obtain ⟨c, hget, -, hown, -⟩ := hl
      rw [hr] at hget
      cases hget
      refine .held ⟨_, hr', hb, hown, ?_⟩
      simp [Entry.renew, hout, ← hown, howner]
    | expired _ hu | completed _ hu _ =>
      have := hu b hr
      simp [hb] at this
  | completed hb =>
    rename_i owner b
    rw [Entry.renew_of_not_beat (by simp)]
    have hu : Unleased ((QueueOp.complete j owner).exec at_ jobs).2 j := by
      intro b' h'
      rw [hr'] at h'
      cases h'
    cases h with
    | held hl =>
      obtain ⟨c, hget, hst, hown, -⟩ := hl
      rw [hr] at hget
      cases hget
      have howner : owner = a := by
        by_contra hne
        exact hlegal (hb hst (fun h => hne (h.symm.trans hown)))
      subst howner
      exact .completed ⟨_, List.mem_append_right _ (List.mem_singleton_self _), rfl, hout,
        by simp [hr]⟩ hu (fun hne => absurd hr' hne)
    | expired hc _ => exact .expired (Int.lt_of_lt_of_le hc hclock) hu
    | completed hrem _ _ =>
      exact .completed (hrem.snoc _) hu (fun hne => absurd hr' hne)

/-- A run keeps the phase as long as no claim returns `j`. -/
theorem Phase.trace {j a : String} {jobs jobs' : JobTable} {leaseEnd clock clock' : Time}
    {done es : List Entry} (h : Phase j a leaseEnd done jobs clock)
    (ht : Trace jobs clock es jobs' clock') (hno : ∀ e ∈ es, ∀ n, e.out ≠ .claimed j n) :
    Phase j a (leaseEndAfter j a leaseEnd es) (done ++ es) jobs' clock' := by
  induction ht generalizing leaseEnd done with
  | nil jobs clock => simpa [leaseEndAfter] using h
  | cons op at_ hclock hlegal _ ih =>
    have hstep := h.exec hclock hlegal (hno _ (List.mem_cons_self ..))
    have := ih hstep (fun e he => hno e (List.mem_cons_of_mem _ he))
    simpa [leaseEndAfter, List.append_assoc] using this

theorem Trace.split {jobs jobs' : JobTable} {clock clock' : Time} {p q : List Entry} {e : Entry}
    (h : Trace jobs clock (p ++ e :: q) jobs' clock') :
    ∃ c, Trace jobs clock p e.pre c ∧ c ≤ e.at_ ∧ e.op.Legal e.pre e.at_ ∧
      e.out = (e.op.exec e.at_ e.pre).1 ∧
      Trace (e.op.exec e.at_ e.pre).2 e.at_ q jobs' clock' := by
  induction p generalizing jobs clock with
  | nil =>
    cases h with
    | cons op at_ hclock hlegal rest => exact ⟨clock, .nil _ _, hclock, hlegal, rfl, rest⟩
  | cons x p ih =>
    cases h with
    | cons op at_ hclock hlegal rest =>
      obtain ⟨c, hp, hq⟩ := ih rest
      exact ⟨c, .cons op at_ hclock hlegal hp, hq⟩

/-- The claim itself starts the lease. -/
theorem leasedTo_of_claimed {a j : String} {lease : Duration} {now at_ : Time}
    {order : List String} {n : Nat} {jobs : JobTable}
    (h : ((QueueOp.claim a lease now order).exec at_ jobs).1 = .claimed j n) :
    LeasedTo ((QueueOp.claim a lease now order).exec at_ jobs).2 j a
      (now + effectiveLease lease) := by
  have hrow := exec_rowStep j (.claim a lease now order) at_ jobs
  generalize hr' : ((QueueOp.claim a lease now order).exec at_ jobs).2.get? j = r' at hrow
  rw [h] at hrow
  generalize jobs.get? j = r at hrow
  cases hrow with
  | keep hclaim _ | repended _ _ _ hclaim => exact absurd rfl (hclaim n)
  | claimed _ hst howner huntil => exact ⟨_, hr', hst, howner, huntil⟩

/-- A claim returns `j` only past the lease end, or after `a` completed
`j` and it was enqueued anew. -/
theorem Phase.claimed_again {j a : String} {leaseEnd : Time} {es : List Entry} {jobs : JobTable}
    {clock at_ : Time} {op : QueueOp} {n : Nat} (h : Phase j a leaseEnd es jobs clock)
    (hclock : clock ≤ at_) (hlegal : op.Legal jobs at_)
    (hout : (op.exec at_ jobs).1 = .claimed j n) :
    leaseEnd < at_ ∨ EnqueuedAnew j a es := by
  have hrow := exec_rowStep j op at_ jobs
  generalize hr : jobs.get? j = r at hrow
  rw [hout] at hrow
  generalize (op.exec at_ jobs).2.get? j = r' at hrow
  cases hrow with
  | keep hclaim _ | repended _ _ _ hclaim => exact absurd rfl (hclaim n)
  | claimed hb _ _ _ =>
    cases h with
    | held hl =>
      obtain ⟨c, hget, hst, -, huntil⟩ := hl
      rw [hr] at hget
      cases hget
      rcases hb with hb | hb
      · rw [hst] at hb
        cases hb
      · exact .inl (Int.lt_of_lt_of_le (huntil ▸ hb) hlegal.1)
    | expired hc _ => exact .inl (Int.lt_of_lt_of_le hc hclock)
    | completed _ _ hnew => exact .inr (hnew (by simp [hr]))

/-- Another owner's completion or heartbeat leaves a leased row alone. -/
theorem LeasedTo.other_owner {j a b : String} {leaseEnd at_ : Time} {jobs : JobTable}
    {op : QueueOp} (h : LeasedTo jobs j a leaseEnd) (hb : b ≠ a) (hlegal : op.Legal jobs at_)
    (hop : op = .complete j b ∨ ∃ lease, op = .heartbeat j b lease) :
    (op.exec at_ jobs).2.get? j = jobs.get? j := by
  obtain ⟨c, hget, hst, hown, -⟩ := h
  have hrow := exec_rowStep j op at_ jobs
  rw [hget] at hrow ⊢
  generalize (op.exec at_ jobs).2.get? j = r' at hrow
  generalize (op.exec at_ jobs).1 = out at hrow
  cases hrow with
  | keep _ _ => rfl
  | repended => simp at hop
  | claimed => simp at hop
  | beaten _ howner =>
    rcases hop with hop | ⟨_, hop⟩ <;> cases hop
    exact absurd (howner.symm.trans hown) hb
  | completed hc =>
    rcases hop with hop | ⟨_, hop⟩ <;> cases hop
    exact absurd (hc hst (fun h => hb (h.symm.trans hown))) hlegal

/-- **A claimed job is exclusive until its lease ends.** In any run of
the queue, from any table, take a claim by `a` that returned `j` and any
later entry with no claim of `j` in between. The entry returns `j` to a
claimer only if the clock is strictly past the lease end in force, or
`a` completed `j` and it was enqueued anew; until then the row is leased
to `a`; and while it is, the completions and heartbeats of other owners
leave it as it is. -/
theorem claimed_job_exclusive {jobs jobs' : JobTable} {clock clock' : Time}
    {before mid rest : List Entry} {e e' : Entry} {a j : String} {lease : Duration} {now : Time}
    {order : List String} {n : Nat}
    (h : Trace jobs clock (before ++ e :: (mid ++ e' :: rest)) jobs' clock')
    (hop : e.op = .claim a lease now order) (hout : e.out = .claimed j n)
    (hmid : ∀ x ∈ mid, ∀ m, x.out ≠ .claimed j m) :
    let leaseEnd := leaseEndAfter j a (now + effectiveLease lease) mid
    (∀ m, e'.out = .claimed j m → leaseEnd < e'.at_ ∨ EnqueuedAnew j a mid) ∧
    (e'.at_ ≤ leaseEnd → ¬ RemovedBy j a mid → LeasedTo e'.pre j a leaseEnd) ∧
    (∀ b, b ≠ a → (e'.op = .complete j b ∨ ∃ l, e'.op = .heartbeat j b l) →
      LeasedTo e'.pre j a leaseEnd →
      (e'.op.exec e'.at_ e'.pre).2.get? j = e'.pre.get? j) := by
  intro leaseEnd
  obtain ⟨_, -, -, -, he, htail⟩ := h.split
  obtain ⟨c, hpre, hc, hlegal, he', -⟩ := htail.split
  rw [hop] at hpre he
  have hstart : Phase j a (now + effectiveLease lease) [] _ e.at_ :=
    .held (leasedTo_of_claimed (he.symm.trans hout))
  have hphase : Phase j a leaseEnd mid e'.pre c := by
    simpa using hstart.trace hpre hmid
  refine ⟨?_, ?_, ?_⟩
  · intro m hm
    exact hphase.claimed_again hc hlegal (he'.symm.trans hm)
  · intro hle hnot
    cases hphase with
    | held hl => exact hl
    | expired hlt _ => exact absurd (Int.lt_of_lt_of_le hlt (Int.le_trans hc hle)) (Int.lt_irrefl _)
    | completed hrem _ _ => exact absurd hrem hnot
  · intro b hb hop' hl
    exact hl.other_owner hb hlegal hop'

/-- A job claimed at 2 for 10, renewed at 9 for 10, and claimed by
another owner at 20, past the end 19. -/
theorem claimed_job_exclusive_renewed :
    let t1 := ((QueueOp.enqueue "s").exec 1 Table.empty).2
    let t2 := ((QueueOp.claim "a" 10 2 ["s"]).exec 2 t1).2
    let beat := (QueueOp.heartbeat "s" "a" 10).entry 9 t2
    let t3 := ((QueueOp.heartbeat "s" "a" 10).exec 9 t2).2
    beat.out = .beat true ∧ ((QueueOp.claim "b" 10 20 ["s"]).exec 20 t3).1 = .claimed "s" 2 ∧
      (leaseEndAfter "s" "a" (2 + effectiveLease 10) [beat] < 20 ∨
        EnqueuedAnew "s" "a" [beat]) := by
  intro t1 t2 beat t3
  have hrun : Trace Table.empty 0
      ([(QueueOp.enqueue "s").entry 1 Table.empty] ++
        (QueueOp.claim "a" 10 2 ["s"]).entry 2 t1 ::
          ([beat] ++ (QueueOp.claim "b" 10 20 ["s"]).entry 20 t3 :: []))
      ((QueueOp.claim "b" 10 20 ["s"]).exec 20 t3).2 20 :=
    .cons _ 1 (by decide) trivial <| .cons _ 2 (by decide) ⟨by decide, by decide⟩ <|
      .cons _ 9 (by decide) trivial <| .cons _ 20 (by decide) ⟨by decide, by decide⟩ <| .nil _ _
  have hlast : ((QueueOp.claim "b" 10 20 ["s"]).exec 20 t3).1 = .claimed "s" 2 := by decide
  exact ⟨by decide, hlast,
    (claimed_job_exclusive hrun rfl (n := 1) (by decide)
      (by simp [beat, QueueOp.exec])).1 2 hlast⟩

end Scintx.Store
