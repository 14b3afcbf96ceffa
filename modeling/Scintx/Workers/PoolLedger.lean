/-
Scintx.Workers.PoolLedger — no job of a local pool is lost, invented or
run twice (`internal/workers/dispatcher.go`).

`PoolLedger` is a pool with a LEDGER beside it: the ids whose `Commit`
returned nil, those whose `Commit` returned an error, and those whose
`process` has ended. Two more things are written out here that the pool
alone leaves implicit. The channel `jobs` has a state of its own, apart
from the flag `closed`, and a send on it (or a second `close`) after it
was closed PANICS. And a worker whose `range p.jobs` finds the channel
closed and empty exits, for good.

The balance of the ledger is an equation of counts, kept by every step.
The rest follows from the order of things in `Close` and `Commit`: both
hold the mutex, so a commit that comes to its send has seen an open pool,
and a pool that is open has an open channel.
-/
import Scintx.Workers.LocalPoolTheorems

namespace Scintx.Workers

open Scintx.Lib

structure PoolLedger where
  pool : LocalPool
  /-- `close(p.jobs)` was called. -/
  jobsClosed : Bool := false
  /-- The workers whose loop has ended. -/
  exited : Nat := 0
  /-- The ids whose `Commit` returned nil. -/
  committed : List String := []
  /-- The ids whose `Commit` returned an error. -/
  refused : List String := []
  /-- The ids whose `process` returned or panicked. -/
  processed : List String := []
  /-- The runtime panicked on the channel `jobs`. -/
  panicked : Bool := false
  deriving DecidableEq

inductive LedgerAction where
  | call (a : PoolAction)
  /-- A worker leaves its loop. -/
  | exit
  deriving DecidableEq

/-- `Commit` comes to `p.jobs <- subID`. -/
def LocalPool.reachesSend (p : LocalPool) (i : Nat) : Bool :=
  match p.tokens[i]? with
  | none => false
  | some t => !(t.released || t.committed) && !p.closed && !p.unlimited

/-- A worker that is neither busy nor gone. -/
def PoolLedger.idle (s : PoolLedger) : Bool :=
  decide (s.pool.running.length + s.exited < s.pool.workers)

def PoolLedger.commit (s : PoolLedger) (tok : Nat) (subID : String) : PoolLedger :=
  if s.pool.reachesSend tok && s.jobsClosed then { s with panicked := true }
  else
    match s.pool.commit tok subID with
    | (.ok (), pool) => { s with pool := pool, committed := s.committed ++ [subID] }
    | (.error _, pool) => { s with pool := pool, refused := s.refused ++ [subID] }

/-- An unlimited pool has no channel to close. -/
def PoolLedger.close (s : PoolLedger) : PoolLedger :=
  if s.pool.closed then s
  else if s.pool.unlimited then { s with pool := s.pool.close }
  else
    { s with
      pool := s.pool.close
      jobsClosed := true
      panicked := s.panicked || s.jobsClosed }

def ledgerStep : LedgerAction → PoolLedger → Option PoolLedger
  | .call (.reserve ctxErr), s => some { s with pool := (s.pool.reserve ctxErr).2 }
  | .call (.release tok), s => some { s with pool := s.pool.release tok }
  | .call (.commit tok subID), s => some (s.commit tok subID)
  | .call .close, s => some s.close
  | .call (.take k), s =>
    if s.pool.unlimited || s.idle then
      (s.pool.take k).map fun (_, pool) => { s with pool := pool }
    else none
  | .call (.finish id), s =>
    (s.pool.finish id).map fun pool => { s with pool := pool, processed := s.processed ++ [id] }
  | .exit, s =>
    if s.jobsClosed && s.pool.jobs.isEmpty && s.idle then some { s with exited := s.exited + 1 }
    else none

/-- The runs of a pool, limited or not, with its ledger. -/
def ledgerSys : Sys PoolLedger LedgerAction where
  init s := ∃ room cfg p, newLocalPool room cfg = some p ∧ s = { pool := p }
  step := ledgerStep

/-- Every worker has exited; an unlimited pool has one goroutine a job. -/
def PoolLedger.AllExited (s : PoolLedger) : Prop :=
  if s.pool.unlimited then s.pool.jobs = [] ∧ s.pool.running = []
  else s.exited = s.pool.workers

instance (s : PoolLedger) : Decidable s.AllExited :=
  inferInstanceAs (Decidable (ite _ _ _))

/-- Everything that was committed and is somewhere in the pool, or has
been through it. -/
def PoolLedger.admitted (s : PoolLedger) : List String :=
  s.pool.jobs ++ s.pool.running ++ s.processed

/-! ## The invariant -/

structure LedgerInv (s : PoolLedger) : Prop where
  balance : s.committed.Perm s.admitted
  channel : s.jobsClosed = (s.pool.closed && !s.pool.unlimited)
  calm : s.panicked = false
  drained : 0 < s.exited → s.jobsClosed = true ∧ s.pool.jobs = []
  staffed : s.pool.unlimited = false →
    0 < s.pool.workers ∧ s.pool.running.length + s.exited ≤ s.pool.workers

/-- A step that touches no job keeps the invariant. -/
theorem LedgerInv.of_sameWork {s : PoolLedger} (h : LedgerInv s) {q : LocalPool}
    (hq : s.pool.SameWork q) (refused : List String) :
    LedgerInv { s with pool := q, refused := refused } where
  balance := by
    simpa only [PoolLedger.admitted, hq.jobs, hq.running] using h.balance
  channel := by simpa only [hq.closed, hq.unlimited] using h.channel
  calm := h.calm
  drained := by simpa only [hq.jobs] using h.drained
  staffed := by simpa only [hq.unlimited, hq.workers, hq.running] using h.staffed

/-- The send of a commit finds the channel open. -/
theorem LedgerInv.send_open {s : PoolLedger} (h : LedgerInv s) {tok : Nat}
    (hsend : s.pool.reachesSend tok = true) : s.jobsClosed = false := by
  unfold LocalPool.reachesSend at hsend
  split at hsend
  · cases hsend
  · simp only [Bool.and_eq_true, Bool.not_eq_true'] at hsend
    rw [h.channel, hsend.1.2]
    rfl

theorem LedgerInv.no_panic {s : PoolLedger} (h : LedgerInv s) (tok : Nat) :
    (s.pool.reachesSend tok && s.jobsClosed) = false := by
  cases hsend : s.pool.reachesSend tok with
  | false => rfl
  | true => simpa using h.send_open hsend

/-- What a commit does to the ledger. -/
theorem LedgerInv.commit_cases {s : PoolLedger} (h : LedgerInv s) (tok : Nat) (id : String) :
    (s.pool.closed = false ∧ ∃ q, s.pool.SameWork q ∧ s.commit tok id =
        { s with pool := { q with jobs := s.pool.jobs ++ [id] }
                 committed := s.committed ++ [id] }) ∨
      ∃ q, s.pool.SameWork q ∧
        s.commit tok id = { s with pool := q, refused := s.refused ++ [id] } := by
  unfold PoolLedger.commit
  rw [if_neg (by simp [h.no_panic tok])]
  rcases Workers.commit_cases s.pool tok id with ⟨hopen, q, hq, heq⟩ | ⟨e, q, hq, heq⟩
  · exact .inl ⟨hopen, q, hq, by rw [heq]⟩
  · exact .inr ⟨q, hq, by rw [heq]⟩

theorem commit_ledgerInv {s : PoolLedger} (h : LedgerInv s) (tok : Nat) (id : String) :
    LedgerInv (s.commit tok id) := by
  rcases h.commit_cases tok id with ⟨hopen, q, hq, heq⟩ | ⟨q, hq, heq⟩
  · rw [heq]
    refine ⟨?_, ?_, h.calm, ?_, ?_⟩
    · -- the new id stands behind the queued jobs
      have hmove : (s.admitted ++ [id]).Perm
          (s.pool.jobs ++ [id] ++ s.pool.running ++ s.processed) := by
        simp only [PoolLedger.admitted, List.append_assoc]
        refine List.Perm.append_left s.pool.jobs ?_
        simpa using @List.perm_append_comm _ (s.pool.running ++ s.processed) [id]
      simpa only [PoolLedger.admitted, hq.running] using (h.balance.append_right [id]).trans hmove
    · simpa only [hq.closed, hq.unlimited] using h.channel
    · intro hexited
      -- no worker has exited while the pool is open
      have hclosed := (h.drained hexited).1
      rw [h.channel, hopen] at hclosed
      cases hclosed
    · simpa only [hq.unlimited, hq.workers, hq.running] using h.staffed
  · rw [heq]
    exact h.of_sameWork hq _

theorem close_ledgerInv {s : PoolLedger} (h : LedgerInv s) : LedgerInv s.close := by
  unfold PoolLedger.close
  by_cases hclosed : s.pool.closed = true
  · rw [if_pos hclosed]
    exact h
  have hopen : s.pool.closed = false := by simpa using hclosed
  have hchannel : s.jobsClosed = false := by rw [h.channel, hopen]; rfl
  rw [if_neg hclosed]
  cases hlimit : s.pool.unlimited with
  | true =>
    rw [if_pos rfl]
    refine ⟨h.balance, ?_, h.calm, h.drained, fun hu => ?_⟩
    · simp [LocalPool.close, hlimit, hchannel]
    · simp [LocalPool.close, hlimit] at hu
  | false =>
    rw [if_neg (by simp)]
    refine ⟨h.balance, ?_, ?_, ?_, fun _ => h.staffed hlimit⟩
    · simp [LocalPool.close, hlimit]
    · simp [h.calm, hchannel]
    · intro hexited
      -- nobody has exited before
      have hdrained := (h.drained hexited).1
      rw [hchannel] at hdrained
      cases hdrained

theorem take_ledgerInv {s : PoolLedger} (h : LedgerInv s) {k : Nat} {id : String} {p : LocalPool}
    (hfree : (s.pool.unlimited || s.idle) = true) (ht : s.pool.take k = some (id, p)) :
    LedgerInv { s with pool := p } := by
  obtain ⟨hk, rfl⟩ := take_cases ht
  have hlt := (List.getElem?_eq_some_iff.mp hk).1
  refine ⟨?_, h.channel, h.calm, ?_, ?_⟩
  · -- the job moves from the queue to the worker
    have hjob : (id :: s.pool.jobs.eraseIdx k).Perm s.pool.jobs := by
      have := List.getElem_cons_eraseIdx_perm hlt
      rwa [(List.getElem?_eq_some_iff.mp hk).2] at this
    have hmove : s.admitted.Perm
        (s.pool.jobs.eraseIdx k ++ (s.pool.running ++ [id]) ++ s.processed) := by
      refine List.Perm.append_right s.processed ?_
      refine (hjob.symm.append_right s.pool.running).trans ?_
      simpa [List.append_assoc] using
        @List.perm_append_comm _ [id] (s.pool.jobs.eraseIdx k ++ s.pool.running)
    exact h.balance.trans hmove
  · intro hexited
    rw [(h.drained hexited).2] at hlt
    cases hlt
  · intro hlimit
    have hlimit' : s.pool.unlimited = false := hlimit
    refine ⟨(h.staffed hlimit').1, ?_⟩
    simp only [hlimit', Bool.false_or, PoolLedger.idle, decide_eq_true_eq] at hfree
    simp only [List.length_append, List.length_singleton]
    omega

theorem finish_ledgerInv {s : PoolLedger} (h : LedgerInv s) {id : String} {p : LocalPool}
    (hf : s.pool.finish id = some p) :
    LedgerInv { s with pool := p, processed := s.processed ++ [id] } := by
  obtain ⟨hmem, hrunning, hjobs, hclosed, hunlimited, hworkers⟩ := finish_cases hf
  refine ⟨?_, ?_, h.calm, ?_, ?_⟩
  · have hjob : s.pool.running.Perm (id :: s.pool.running.erase id) := List.perm_cons_erase hmem
    have hmove : (s.pool.running ++ s.processed).Perm
        (s.pool.running.erase id ++ (s.processed ++ [id])) := by
      refine (hjob.append_right s.processed).trans ?_
      simpa [List.append_assoc] using
        @List.perm_append_comm _ [id] (s.pool.running.erase id ++ s.processed)
    have hbalance := h.balance
    simp only [PoolLedger.admitted, List.append_assoc] at hbalance ⊢
    rw [hjobs, hrunning]
    exact hbalance.trans (hmove.append_left s.pool.jobs)
  · simpa only [hclosed, hunlimited] using h.channel
  · simpa only [hjobs] using h.drained
  · intro hlimit
    obtain ⟨hpos, hle⟩ := h.staffed (hunlimited ▸ hlimit)
    have hlen := List.length_erase_of_mem hmem
    simp only [hworkers, hrunning]
    omega

theorem exit_ledgerInv {s : PoolLedger} (h : LedgerInv s)
    (hexit : (s.jobsClosed && s.pool.jobs.isEmpty && s.idle) = true) :
    LedgerInv { s with exited := s.exited + 1 } := by
  simp only [Bool.and_eq_true, List.isEmpty_iff, PoolLedger.idle, decide_eq_true_eq] at hexit
  obtain ⟨⟨hclosed, hempty⟩, hidle⟩ := hexit
  refine ⟨h.balance, h.channel, h.calm, fun _ => ⟨hclosed, hempty⟩, fun hlimit => ?_⟩
  have hpos := (h.staffed hlimit).1
  simp only
  omega

/-- **Every step keeps the balance.** -/
theorem ledgerStep_inv {s s' : PoolLedger} {a : LedgerAction} (h : LedgerInv s)
    (hs : ledgerStep a s = some s') : LedgerInv s' := by
  cases a with
  | call a =>
    cases a with
    | reserve ctxErr =>
      cases hs
      exact h.of_sameWork (reserve_sameWork s.pool ctxErr) s.refused
    | release tok =>
      cases hs
      exact h.of_sameWork (releaseLocked_sameWork s.pool tok) s.refused
    | commit tok id =>
      cases hs
      exact commit_ledgerInv h tok id
    | close =>
      cases hs
      exact close_ledgerInv h
    | take k =>
      simp only [ledgerStep] at hs
      split at hs
      · rename_i hfree
        obtain ⟨⟨id, p⟩, ht, rfl⟩ := Option.map_eq_some_iff.mp hs
        exact take_ledgerInv h hfree ht
      · cases hs
    | finish id =>
      obtain ⟨p, hf, rfl⟩ := Option.map_eq_some_iff.mp hs
      exact finish_ledgerInv h hf
  | exit =>
    simp only [ledgerStep] at hs
    split at hs
    · rename_i hexit
      cases hs
      exact exit_ledgerInv h hexit
    · cases hs

theorem ledgerInv_reach {s : PoolLedger} (h : ledgerSys.Reach (fun _ _ => True) s) :
    LedgerInv s := by
  refine h.invariant ?_ ?_
  · rintro s ⟨room, cfg, p, hp, rfl⟩
    obtain ⟨hjobs, hrunning, hopen, hworkers⟩ := newLocalPool_cases hp
    refine ⟨?_, ?_, rfl, fun hexited => ?_, fun hlimit => ⟨hworkers hlimit, ?_⟩⟩
    · simp [PoolLedger.admitted, hjobs, hrunning]
    · simp [hopen]
    · cases hexited
    · simp [hrunning]
  · intro s a s' hinv _ hs
    exact ledgerStep_inv hinv hs

/-! ## What the ledger says -/

/-- A closed pool takes no job. -/
theorem LedgerInv.closed_step {s s' : PoolLedger} {a : LedgerAction} (h : LedgerInv s)
    (hclosed : s.pool.closed = true) (hs : ledgerStep a s = some s') :
    s'.committed = s.committed ∧ s'.pool.jobs.Sublist s.pool.jobs := by
  cases a with
  | call a =>
    cases a with
    | reserve ctxErr =>
      cases hs
      exact ⟨rfl, by rw [(reserve_sameWork s.pool ctxErr).jobs]⟩
    | release tok =>
      cases hs
      exact ⟨rfl, by simp only [LocalPool.release, (releaseLocked_sameWork s.pool tok).jobs,
        List.Sublist.refl]⟩
    | commit tok id =>
      cases hs
      rcases h.commit_cases tok id with ⟨hopen, -⟩ | ⟨q, hq, heq⟩
      · rw [hclosed] at hopen
        cases hopen
      · rw [heq]
        exact ⟨rfl, by rw [hq.jobs]⟩
    | close =>
      cases hs
      rw [PoolLedger.close, if_pos hclosed]
      exact ⟨rfl, List.Sublist.refl _⟩
    | take k =>
      simp only [ledgerStep] at hs
      split at hs
      · obtain ⟨⟨id, p⟩, ht, rfl⟩ := Option.map_eq_some_iff.mp hs
        obtain ⟨-, rfl⟩ := take_cases ht
        exact ⟨rfl, List.eraseIdx_sublist ..⟩
      · cases hs
    | finish id =>
      obtain ⟨p, hf, rfl⟩ := Option.map_eq_some_iff.mp hs
      exact ⟨rfl, by rw [(finish_cases hf).2.2.1]⟩
  | exit =>
    simp only [ledgerStep] at hs
    split at hs
    · cases hs
      exact ⟨rfl, List.Sublist.refl _⟩
    · cases hs

/-- When all workers are gone nothing is queued or running. -/
theorem LedgerInv.all_processed {s : PoolLedger} (h : LedgerInv s) (hexited : s.AllExited) :
    s.processed.Perm s.committed := by
  have hnone : s.pool.jobs = [] ∧ s.pool.running = [] := by
    unfold PoolLedger.AllExited at hexited
    split at hexited
    · exact hexited
    · rename_i hlimit
      obtain ⟨hpos, hle⟩ := h.staffed (by simpa using hlimit)
      refine ⟨(h.drained (by omega)).2, ?_⟩
      rw [← List.length_eq_zero_iff]
      omega
  have hbalance := h.balance
  rw [PoolLedger.admitted, hnone.1, hnone.2] at hbalance
  exact hbalance.symm

/-- **The ledger of a pool balances.** Over every interleaving of client
calls, worker steps and `Close`, on a limited or an unlimited pool: what
was committed is queued, running or processed, each as often as it was
committed, so an id none of whose commits returned nil never gets that
far; a closed pool takes no job; once it is closed and its workers have
exited, everything committed has been processed; and no send on a closed
channel is reached. -/
theorem pool_ledger_balances {s : PoolLedger} (h : ledgerSys.Reach (fun _ _ => True) s) :
    s.committed.Perm (s.pool.jobs ++ s.pool.running ++ s.processed) ∧
    (∀ id, id ∉ s.committed → id ∉ s.pool.jobs ∧ id ∉ s.pool.running ∧ id ∉ s.processed) ∧
    (s.pool.closed = true → ∀ a s', ledgerSys.step a s = some s' →
      s'.committed = s.committed ∧ s'.pool.jobs.Sublist s.pool.jobs) ∧
    (s.pool.closed = true → s.AllExited → s.processed.Perm s.committed) ∧
    s.panicked = false ∧ (∀ tok, s.pool.reachesSend tok = true → s.jobsClosed = false) := by
  have hinv := ledgerInv_reach h
  refine ⟨hinv.balance, ?_, ?_, ?_, hinv.calm, ?_⟩
  · intro id hid
    have hnot : id ∉ s.pool.jobs ++ s.pool.running ++ s.processed :=
      fun hmem => hid (hinv.balance.mem_iff.mpr hmem)
    simpa [and_assoc] using hnot
  · intro hclosed a s' hs
    exact hinv.closed_step hclosed hs
  · intro _ hexited
    exact hinv.all_processed hexited
  · intro tok hsend
    exact hinv.send_open hsend

/-- A new pool with `n` workers and room for `n` submissions. -/
def PoolLedger.fresh (n : Nat) : PoolLedger where
  pool := { maxInflight := n, workers := n, unlimited := false, closed := false
            sem := 0, jobs := [], running := [], tokens := [] }

theorem PoolLedger.reach_fresh {n : Nat} (hn : 0 < n) :
    ledgerSys.Reach (fun _ _ => True) (PoolLedger.fresh n) := by
  have hnew : newLocalPool (16 * n) { maxInflight := n, workers := n } =
      some (PoolLedger.fresh n).pool := by
    have hworkers : min (max (n : Int) 1) n = n := by omega
    have hlimit : (n : Int) ≠ 0 := by omega
    have hfits : 0 ≤ (n : Int) ∧ 16 * (n : Int) ≤ (16 * n : Nat) := by omega
    rw [newLocalPool_limited hlimit, if_pos hfits]
    simp only [hworkers]
    rfl
  exact Sys.Reach.init ⟨_, _, _, hnew, rfl⟩

/-- Two workers, a pool closed while a job is queued: the job is
processed before the workers exit. -/
theorem pool_ledger_balances_drained :
    ∃ s, ledgerSys.Reach (fun _ _ => True) s ∧ s.pool.closed = true ∧ s.AllExited ∧
      s.committed = ["sub_a"] ∧ s.processed.Perm s.committed := by
  let acts : List LedgerAction :=
    [.call (.reserve none), .call (.commit 0 "sub_a"), .call .close, .call (.take 0), .exit,
     .call (.finish "sub_a"), .exit]
  have hrun : (ledgerSys.run (fun _ _ => True) acts (.fresh 2)).map
      (fun s => (s.pool.closed, decide s.AllExited, s.committed)) =
        some (true, true, ["sub_a"]) := by
    decide +kernel
  obtain ⟨s, hreach, heq⟩ := (PoolLedger.reach_fresh Nat.two_pos).of_run_map hrun
  simp only [Prod.mk.injEq, decide_eq_true_eq] at heq
  obtain ⟨hclosed, hexited, hcommitted⟩ := heq
  exact ⟨s, hreach, hclosed, hexited, hcommitted,
    (pool_ledger_balances hreach).2.2.2.1 hclosed hexited⟩

/-- A token is committed twice, for one id: the second call returns an
error, and the id is processed all the same. -/
theorem refused_id_is_processed :
    ∃ s, ledgerSys.Reach (fun _ _ => True) s ∧ s.refused = ["sub_a"] ∧
      s.processed = ["sub_a"] := by
  let acts : List LedgerAction :=
    [.call (.reserve none), .call (.commit 0 "sub_a"), .call (.commit 0 "sub_a"),
     .call (.take 0), .call (.finish "sub_a")]
  have hrun : (ledgerSys.run (fun _ _ => True) acts (.fresh 1)).map
      (fun s => (s.refused, s.processed)) = some (["sub_a"], ["sub_a"]) := by
    decide +kernel
  obtain ⟨s, hreach, heq⟩ := (PoolLedger.reach_fresh Nat.one_pos).of_run_map hrun
  simp only [Prod.mk.injEq] at heq
  exact ⟨s, hreach, heq.1, heq.2⟩

end Scintx.Workers
