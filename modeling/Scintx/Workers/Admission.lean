/-
Scintx.Workers.Admission — how many jobs a queue pool lets in
(`internal/workers/queue.go`).

`Reserve` compares the number of rows with `MaxPending` and issues a
token; the row is inserted later, by `Commit`, which compares nothing.
So what is checked is not what is inserted: every token that was issued
at one count of rows may still become a row. With `k` tokens outstanding
at a time the rows reach `MaxPending + k - 1` and no more
(`admissionInv_reach`), hence they stay within `MaxPending` exactly if no two
tokens are ever outstanding together (`queue_within_limit_iff`).

The jobs are in either store. A call on the store takes place as a whole
and may fail. `Submit` is `Reserve`, `Commit` and, if that failed,
`Release`, each under the mutex for itself (`submit_is_run`), so a run of
the actions below covers every interleaving of `Submit` calls.
-/
import Mathlib.Data.Set.Finite.Basic
import Scintx.Store.JobCounts
import Scintx.Workers.LocalPoolTheorems
import Scintx.Workers.QueuePool

namespace Scintx.Workers

open Scintx.Lib Scintx.Api Scintx.Store

/-! ## The pool over either store -/

namespace QueuePool

/-- `Reserve`; `storeErr` is the failure of `PendingJobCount`. -/
def reserveOn (p : QueuePool) (jobs : JobStore) (ctxErr storeErr : Option String) :
    Except DispatchError Nat × QueuePool :=
  match ctxErr with
  | some cause => (.error (.context cause), p)
  | none =>
    if p.closed then (.error .poolClosed, p)
    else
      match storeErr with
      | some cause => (.error (.store cause), p)
      | none =>
        if p.maxPending ≤ jobs.pending then (.error .backpressure, p)
        else
          (.ok p.tokens.length,
            { p with tokens := p.tokens ++ [{ released := false, committed := false }] })

/-- `Commit`; `storeErr` is the failure of `EnqueueJob`. -/
def commitOn (p : QueuePool) (jobs : JobStore) (now : Time) (storeErr : Option String) (i : Nat)
    (subID : String) : Except DispatchError Unit × QueuePool × JobStore :=
  match p.tokens[i]? with
  | none => (.error .tokenUsed, p, jobs)
  | some t =>
    if t.released || t.committed then (.error .tokenUsed, p, jobs)
    else if p.closed then
      (.error .poolClosed, { p with tokens := p.tokens.set i { t with released := true } }, jobs)
    else
      match storeErr, jobs.call now (.enqueue subID) with
      | some cause, _ => (.error (.store cause), p, jobs)
      | none, (.failed cause, _) => (.error (.store cause), p, jobs)
      | none, (_, jobs) =>
        (.ok (), { p with tokens := p.tokens.set i { t with committed := true } }, jobs)

/-- On a memory store these are the calls of `QueuePool`. -/
theorem reserveOn_memory (p : QueuePool) (jobs : JobTable) (ctxErr : Option String) :
    p.reserveOn (.memory jobs) ctxErr none = p.reserve jobs ctxErr := rfl

theorem commitOn_memory (p : QueuePool) (jobs : JobTable) (now : Time) (i : Nat) (subID : String) :
    p.commitOn (.memory jobs) now none i subID =
      ((p.commit jobs now i subID).1, (p.commit jobs now i subID).2.1,
        .memory (p.commit jobs now i subID).2.2) := by
  unfold commitOn commit
  cases p.tokens[i]? with
  | none => rfl
  | some t =>
    simp only [JobStore.call, JobCall.onMemory]
    cases t.released || t.committed <;> cases p.closed <;> cases enqueueJob jobs now subID <;> rfl

/-- Tokens neither committed nor released. -/
def outstanding (p : QueuePool) : Nat := p.tokens.countP AdmitToken.unused

end QueuePool

/-! ## The system -/

structure Admission where
  pool : QueuePool
  jobs : JobStore

inductive AdmissionAction where
  | reserve (ctxErr storeErr : Option String)
  | commit (now : Time) (storeErr : Option String) (i : Nat) (subID : String)
  | release (i : Nat)
  | close
  /-- A call of a worker, or of a handler that abandons its submission. -/
  | call (now : Time) (c : JobCall)
  deriving DecidableEq, Repr

/-- Only `Commit` inserts rows. -/
def admissionStep : AdmissionAction → Admission → Option Admission
  | .reserve ctxErr storeErr, s =>
    some { s with pool := (s.pool.reserveOn s.jobs ctxErr storeErr).2 }
  | .commit now storeErr i subID, s =>
    let out := s.pool.commitOn s.jobs now storeErr i subID
    some { pool := out.2.1, jobs := out.2.2 }
  | .release i, s => some { s with pool := s.pool.release i }
  | .close, s => some { s with pool := s.pool.close }
  | .call now c, s =>
    if c.isEnqueue then none else some { s with jobs := (s.jobs.call now c).2 }

/-- A new pool and an empty queue, in either store. -/
def admissionSys (cfg : QueueConfig) (defaultWorkerID : String) :
    Sys Admission AdmissionAction where
  init s := s.pool = newQueuePool cfg defaultWorkerID ∧
    (s.jobs = .memory .empty ∨ s.jobs = .sql .empty)
  step := admissionStep

def AdmissionAction.isReserve : AdmissionAction → Bool
  | .reserve _ _ => true
  | _ => false

/-- No token is asked for while `k` are outstanding. -/
def AtMost (k : Nat) (s : Admission) (a : AdmissionAction) : Prop :=
  a.isReserve = true → s.pool.outstanding < k

instance (k : Nat) (s : Admission) (a : AdmissionAction) : Decidable (AtMost k s a) :=
  inferInstanceAs (Decidable (_ → _))

/-- `Submit` by a handler that nobody interrupts. -/
def Admission.submit (s : Admission) (ctxErr countErr enqueueErr : Option String) (now : Time)
    (subID : String) : Except DispatchError Unit × Admission :=
  match s.pool.reserveOn s.jobs ctxErr countErr with
  | (.error e, pool) => (.error e, { s with pool := pool })
  | (.ok tok, pool) =>
    match pool.commitOn s.jobs now enqueueErr tok subID with
    | (.error e, pool, jobs) => (.error e, { pool := pool.release tok, jobs := jobs })
    | (.ok (), pool, jobs) => (.ok (), { pool := pool, jobs := jobs })

theorem submit_is_run (cfg : QueueConfig) (wid : String) (s : Admission)
    (ctxErr countErr enqueueErr : Option String) (now : Time) (subID : String) :
    ∃ acts, (admissionSys cfg wid).run (fun _ _ => True) acts s =
      some (s.submit ctxErr countErr enqueueErr now subID).2 := by
  unfold Admission.submit
  rcases hr : s.pool.reserveOn s.jobs ctxErr countErr with ⟨e | tok, pool⟩
  · exact ⟨[.reserve ctxErr countErr], by simp [Sys.run, admissionSys, admissionStep, hr]⟩
  · rcases hc : pool.commitOn s.jobs now enqueueErr tok subID with ⟨e | u, pool', jobs⟩
    · refine ⟨[.reserve ctxErr countErr, .commit now enqueueErr tok subID, .release tok], ?_⟩
      simp [Sys.run, admissionSys, admissionStep, hr, hc]
    · refine ⟨[.reserve ctxErr countErr, .commit now enqueueErr tok subID], ?_⟩
      simp [Sys.run, admissionSys, admissionStep, hr, hc]

/-! ## What a step does to the counts -/

/-- Rows and outstanding tokens before and after a step, which may be a
`Reserve`. -/
inductive CountStep (limit : Int) (isReserve : Bool) : Nat → Nat → Nat → Nat → Prop
  | reserve {rows out : Nat} (hcall : isReserve = true) (hroom : (rows : Int) < limit) :
      CountStep limit isReserve rows out rows (out + 1)
  | commit {rows rows' out : Nat} (hrows : rows' ≤ rows + 1) :
      CountStep limit isReserve rows (out + 1) rows' out
  | fewer {rows rows' out out' : Nat} (hrows : rows' ≤ rows) (hout : out' ≤ out) :
      CountStep limit isReserve rows out rows' out'

section Steps

variable {p : QueuePool} {i : Nat}

theorem outstanding_use {t t' : AdmitToken} (hi : p.tokens[i]? = some t)
    (ht : ¬ (t.released || t.committed) = true) (ht' : t'.unused = false) :
    QueuePool.outstanding { p with tokens := p.tokens.set i t' } + 1 = p.outstanding :=
  countP_use hi (by simpa [AdmitToken.unused] using ht) ht'

theorem outstanding_release (p : QueuePool) (i : Nat) :
    (p.release i).outstanding ≤ p.outstanding := by
  unfold QueuePool.release
  split
  · exact Nat.le_refl _
  · rename_i t hi
    split
    · exact Nat.le_refl _
    · rename_i hused
      have := outstanding_use hi hused (unused_released t)
      omega

theorem reserveOn_counts (p : QueuePool) (jobs : JobStore) (ctxErr storeErr : Option String) :
    CountStep p.maxPending true jobs.pending p.outstanding jobs.pending
        (p.reserveOn jobs ctxErr storeErr).2.outstanding ∧
      (p.reserveOn jobs ctxErr storeErr).2.maxPending = p.maxPending := by
  have hsame : CountStep p.maxPending true jobs.pending p.outstanding jobs.pending p.outstanding :=
    .fewer (Nat.le_refl _) (Nat.le_refl _)
  unfold QueuePool.reserveOn
  split
  · exact ⟨hsame, rfl⟩
  · split
    · exact ⟨hsame, rfl⟩
    · split
      · exact ⟨hsame, rfl⟩
      · split
        · exact ⟨hsame, rfl⟩
        · rename_i hroom
          refine ⟨?_, rfl⟩
          simp only [QueuePool.outstanding, List.countP_append, List.countP_singleton,
            unused_fresh, if_true]
          exact .reserve rfl (Int.not_le.mp hroom)

theorem commitOn_counts (p : QueuePool) (jobs : JobStore) (now : Time) (storeErr : Option String)
    (i : Nat) (subID : String) :
    CountStep p.maxPending false jobs.pending p.outstanding
        (p.commitOn jobs now storeErr i subID).2.2.pending
        (p.commitOn jobs now storeErr i subID).2.1.outstanding ∧
      (p.commitOn jobs now storeErr i subID).2.1.maxPending = p.maxPending := by
  have hsame : CountStep p.maxPending false jobs.pending p.outstanding jobs.pending p.outstanding :=
    .fewer (Nat.le_refl _) (Nat.le_refl _)
  unfold QueuePool.commitOn
  split
  · exact ⟨hsame, rfl⟩
  rename_i t hi
  split
  · exact ⟨hsame, rfl⟩
  rename_i hused
  split
  · have := outstanding_use hi hused (unused_released t)
    exact ⟨.fewer (Nat.le_refl _) (by simp only; omega), rfl⟩
  split
  · exact ⟨hsame, rfl⟩
  · exact ⟨hsame, rfl⟩
  · rename_i jobs' _ hcall
    have hrows := JobStore.pending_call_le now (.enqueue subID) jobs
    rw [hcall] at hrows
    rw [← outstanding_use hi hused (unused_committed t)]
    exact ⟨.commit hrows, rfl⟩

/-- **Every step**, seen on the counts. -/
theorem admissionStep_counts {a : AdmissionAction} {s s' : Admission}
    (h : admissionStep a s = some s') :
    CountStep s.pool.maxPending a.isReserve s.jobs.pending s.pool.outstanding s'.jobs.pending
        s'.pool.outstanding ∧
      s'.pool.maxPending = s.pool.maxPending := by
  cases a with
  | reserve ctxErr storeErr =>
    cases h
    exact reserveOn_counts ..
  | commit now storeErr i subID =>
    cases h
    exact commitOn_counts ..
  | release i =>
    cases h
    refine ⟨.fewer (Nat.le_refl _) (outstanding_release s.pool i), ?_⟩
    unfold QueuePool.release
    split
    · rfl
    · split <;> rfl
  | close =>
    cases h
    exact ⟨.fewer (Nat.le_refl _) (Nat.le_refl _), rfl⟩
  | call now c =>
    simp only [admissionStep] at h
    split at h
    · cases h
    · rename_i hc
      cases h
      have hrows := JobStore.pending_call_le now c s.jobs
      rw [Bool.not_eq_true] at hc
      rw [hc] at hrows
      exact ⟨.fewer hrows (Nat.le_refl _), rfl⟩

end Steps

/-! ## The bound -/

/-- With `k` tokens at a time, what is in and what may still come in. -/
structure AdmissionInv (k : Nat) (s : Admission) : Prop where
  limit : 0 < s.pool.maxPending
  tokens : s.pool.outstanding ≤ k
  bound : (s.jobs.pending + s.pool.outstanding : Int) < s.pool.maxPending + k

theorem newQueuePool_maxPending (cfg : QueueConfig) (wid : String) :
    0 < (newQueuePool cfg wid).maxPending := by
  simp only [newQueuePool]
  split
  · split <;> omega
  · omega

theorem pending_empty {jobs : JobStore} (h : jobs = .memory .empty ∨ jobs = .sql .empty) :
    jobs.pending = 0 := by
  rcases h with rfl | rfl <;> rfl

theorem admissionInv_step {k : Nat} {a : AdmissionAction} {s s' : Admission}
    (h : AdmissionInv k s) (hok : AtMost k s a) (hstep : admissionStep a s = some s') :
    AdmissionInv k s' := by
  obtain ⟨hlimit, htokens, hbound⟩ := h
  obtain ⟨hcounts, hsame⟩ := admissionStep_counts hstep
  unfold AtMost at hok
  suffices hnext : s'.pool.outstanding ≤ k ∧
      (s'.jobs.pending + s'.pool.outstanding : Int) < s.pool.maxPending + k from
    ⟨hsame ▸ hlimit, hnext.1, hsame ▸ hnext.2⟩
  generalize s.pool.outstanding = out, s'.pool.outstanding = out' at *
  generalize s.jobs.pending = rows, s'.jobs.pending = rows' at *
  cases hcounts with
  | reserve hcall hroom =>
    have := hok hcall
    omega
  | commit hrows => omega
  | fewer hrows hout => omega

section Runs

variable {cfg : QueueConfig} {wid : String} {k : Nat} {s : Admission}

theorem admissionInv_reach (h : (admissionSys cfg wid).Reach (AtMost k) s) :
    AdmissionInv k s ∧ s.pool.maxPending = (newQueuePool cfg wid).maxPending := by
  refine h.invariant (I := fun s => AdmissionInv k s ∧
    s.pool.maxPending = (newQueuePool cfg wid).maxPending) ?_ ?_
  · rintro s ⟨hpool, hjobs⟩
    have hlimit := newQueuePool_maxPending cfg wid
    have hout : s.pool.outstanding = 0 := by rw [hpool]; rfl
    have hrows := pending_empty hjobs
    rw [← hpool] at hlimit ⊢
    exact ⟨⟨hlimit, by omega, by omega⟩, rfl⟩
  · rintro s a s' ⟨hinv, hsame⟩ hok hstep
    exact ⟨admissionInv_step hinv hok hstep, (admissionStep_counts hstep).2.trans hsame⟩

/-! ## The bound is reached -/

/-- A reachable state of an open pool with `n` rows and `out` tokens
outstanding. -/
structure Filled (cfg : QueueConfig) (wid : String) (k n out : Nat) (s : Admission) : Prop where
  reach : (admissionSys cfg wid).Reach (AtMost k) s
  opened : s.pool.closed = false
  rows : s.jobs.pending = n
  tokens : s.pool.outstanding = out

theorem filled_start :
    Filled cfg wid k 0 0 { pool := newQueuePool cfg wid, jobs := .memory .empty } where
  reach := .init ⟨rfl, .inl rfl⟩
  opened := rfl
  rows := rfl
  tokens := rfl

/-- Below the limit a token is issued. -/
theorem Filled.reserve {n out : Nat} (h : Filled cfg wid k n out s)
    (hroom : (n : Int) < (newQueuePool cfg wid).maxPending) (hout : out < k) :
    ∃ s', Filled cfg wid k n (out + 1) s' := by
  have hlimit := (admissionInv_reach h.reach).2
  have hissue : s.pool.reserveOn s.jobs none none = (.ok s.pool.tokens.length,
      { s.pool with tokens := s.pool.tokens ++ [{ released := false, committed := false }] }) := by
    have hfree : ¬ s.pool.maxPending ≤ (s.jobs.pending : Int) := by rw [h.rows, hlimit]; omega
    simp only [QueuePool.reserveOn, h.opened, hfree, Bool.false_eq_true, if_false]
  refine ⟨_, h.reach.step (.reserve none none) (fun _ => h.tokens ▸ hout) rfl, ?_, h.rows, ?_⟩
  · rw [hissue]
    exact h.opened
  · rw [hissue]
    simp only [QueuePool.outstanding, List.countP_append, List.countP_singleton, unused_fresh,
      if_true]
    exact congrArg (· + 1) h.tokens

/-- Any token brings a row in, whatever the number of rows. -/
theorem Filled.commit {n out : Nat} (h : Filled cfg wid k n (out + 1) s) :
    ∃ s', Filled cfg wid k (n + 1) out s' := by
  have hpos : 0 < s.pool.tokens.countP AdmitToken.unused := by
    rw [← QueuePool.outstanding, h.tokens]
    omega
  obtain ⟨t, hmem, ht⟩ := List.countP_pos_iff.mp hpos
  obtain ⟨i, hi⟩ := List.getElem?_of_mem hmem
  obtain ⟨id, hid⟩ := Infinite.exists_notMem_finset (insert "" s.jobs.rows)
  rw [Finset.mem_insert, not_or] at hid
  obtain ⟨hdone, hrows⟩ := JobStore.call_enqueue_new 0 s.jobs hid.1 hid.2
  have hused : ¬ (t.released || t.committed) = true := by simpa [AdmitToken.unused] using ht
  have hcommit : s.pool.commitOn s.jobs 0 none i id =
      (.ok (), { s.pool with tokens := s.pool.tokens.set i { t with committed := true } },
        (s.jobs.call 0 (.enqueue id)).2) := by
    unfold QueuePool.commitOn
    simp only [hi, hused, h.opened, Bool.false_eq_true, if_false]
    split
    · contradiction
    · rename_i hcall
      rw [hcall] at hdone
      cases hdone
    · rename_i hcall
      rw [hcall]
  refine ⟨_, h.reach.step (.commit 0 none i id) (fun h => by cases h) rfl, ?_, ?_, ?_⟩
  · simp only [hcommit, h.opened]
  · simp only [hcommit, hrows, h.rows]
  · have := outstanding_use hi hused (unused_committed t)
    have := h.tokens
    simp only [hcommit]
    omega

theorem Filled.reserve_many {n : Nat} (h : Filled cfg wid k n 0 s)
    (hroom : (n : Int) < (newQueuePool cfg wid).maxPending) :
    ∀ j ≤ k, ∃ s', Filled cfg wid k n j s' := by
  intro j
  induction j with
  | zero => exact fun _ => ⟨s, h⟩
  | succ j ih =>
    intro hj
    obtain ⟨s', h'⟩ := ih (by omega)
    exact h'.reserve hroom (by omega)

theorem Filled.commit_many {n j : Nat} (h : Filled cfg wid k n j s) :
    ∃ s', Filled cfg wid k (n + j) 0 s' := by
  induction j generalizing n s with
  | zero => exact ⟨s, h⟩
  | succ j ih =>
    obtain ⟨s', h'⟩ := h.commit
    obtain ⟨s'', h''⟩ := ih h'
    exact ⟨s'', by rwa [Nat.add_right_comm] at h''⟩

/-- With one token at a time the queue fills up to the limit. -/
theorem filled_upTo (hk : 0 < k) :
    ∀ n : Nat, (n : Int) ≤ (newQueuePool cfg wid).maxPending → ∃ s, Filled cfg wid k n 0 s := by
  intro n
  induction n with
  | zero => exact fun _ => ⟨_, filled_start⟩
  | succ n ih =>
    intro hn
    obtain ⟨s, h⟩ := ih (by omega)
    obtain ⟨s', h'⟩ := h.reserve (by omega) hk
    exact h'.commit

/-- **How many jobs are let in.** While at most `k` tokens are
outstanding, the rows and these tokens together stay below
`MaxPending + k`; the rows alone stay within `MaxPending` over all such
runs exactly if `k` is at most one. -/
theorem queue_within_limit_iff (cfg : QueueConfig) (wid : String) (k : Nat) :
    (∀ s, (admissionSys cfg wid).Reach (AtMost k) s →
        (s.jobs.pending + s.pool.outstanding : Int) < s.pool.maxPending + k) ∧
      ((∀ s, (admissionSys cfg wid).Reach (AtMost k) s →
          (s.jobs.pending : Int) ≤ s.pool.maxPending) ↔ k ≤ 1) := by
  refine ⟨fun s h => (admissionInv_reach h).1.bound, ?_, ?_⟩
  · intro hwithin
    by_contra hk
    -- one row below the limit, `k` tokens are issued and then all committed
    have hlimit := newQueuePool_maxPending cfg wid
    obtain ⟨s, h⟩ : ∃ s, Filled cfg wid k ((newQueuePool cfg wid).maxPending - 1).toNat 0 s :=
      filled_upTo (by omega) _ (by omega)
    obtain ⟨s₁, h₁⟩ := h.reserve_many (by omega) k (Nat.le_refl k)
    obtain ⟨s₂, h₂⟩ := h₁.commit_many
    have hle := hwithin s₂ h₂.reach
    rw [h₂.rows, (admissionInv_reach h₂.reach).2] at hle
    omega
  · intro hk s h
    have hbound := (admissionInv_reach h).1.bound
    omega

end Runs

/-- Room for one job, and two handlers that both reserve before either
commits: two jobs. -/
theorem two_jobs_admitted :
    ((admissionSys { maxPending := 1 } "gw").run (fun _ _ => True)
        [.reserve none none, .reserve none none, .commit 0 none 0 "sub_a",
          .commit 0 none 1 "sub_b"]
        { pool := newQueuePool { maxPending := 1 } "gw", jobs := .memory .empty }).map
      (fun s => (s.jobs.pending, s.pool.maxPending)) = some (2, 1) := by
  decide

end Scintx.Workers
