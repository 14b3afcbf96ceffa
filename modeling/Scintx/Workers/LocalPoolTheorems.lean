/-
Scintx.Workers.LocalPoolTheorems — the semaphore of the local pool is
conserved.

`sem` holds one element for each slot in use, and a slot is in use by
exactly one of three holders: a token that is neither committed nor
released, a queued job, a running job. `SemInv` is that equation, and
`poolStep_inv` keeps it over every action: each of the six either leaves
the three counts alone, or moves one slot from one holder to the next.
What a caller sees follows from the equation by counting: a live holder
means `sem` is not empty, and an unused token means the queue has room.
-/
import Scintx.Workers.LocalPool

namespace Scintx.Workers

open Scintx.Lib

/-- Number of tokens that still hold their slot. -/
def LocalPool.unusedTokens (p : LocalPool) : Nat := p.tokens.countP AdmitToken.unused

/-- What every reachable state of a limited pool satisfies. -/
structure SemInv (p : LocalPool) : Prop where
  limited : p.unlimited = false
  conserved : p.sem = p.unusedTokens + p.jobs.length + p.running.length
  bounded : p.sem ≤ p.maxInflight

/-! ## What a call leaves alone -/

/-- The calls of clients that admit nothing leave the work alone. -/
structure LocalPool.SameWork (p q : LocalPool) : Prop where
  jobs : q.jobs = p.jobs
  running : q.running = p.running
  closed : q.closed = p.closed
  unlimited : q.unlimited = p.unlimited
  workers : q.workers = p.workers

theorem releaseLocked_sameWork (p : LocalPool) (i : Nat) : p.SameWork (p.releaseLocked i) := by
  unfold LocalPool.releaseLocked
  split
  · exact ⟨rfl, rfl, rfl, rfl, rfl⟩
  · split
    · exact ⟨rfl, rfl, rfl, rfl, rfl⟩
    · simp only
      split <;> exact ⟨rfl, rfl, rfl, rfl, rfl⟩

theorem reserve_sameWork (p : LocalPool) (ctxErr : Option String) :
    p.SameWork (p.reserve ctxErr).2 := by
  unfold LocalPool.reserve
  repeat' split
  all_goals exact ⟨rfl, rfl, rfl, rfl, rfl⟩

/-- A commit queues one job on a pool that is open, or fails and queues
none. -/
theorem commit_cases (p : LocalPool) (i : Nat) (id : String) :
    (p.closed = false ∧
        ∃ q, p.SameWork q ∧ p.commit i id = (.ok (), { q with jobs := p.jobs ++ [id] })) ∨
      ∃ e q, p.SameWork q ∧ p.commit i id = (.error e, q) := by
  unfold LocalPool.commit
  split
  · exact .inr ⟨_, p, ⟨rfl, rfl, rfl, rfl, rfl⟩, rfl⟩
  rename_i t _
  split
  · exact .inr ⟨_, p, ⟨rfl, rfl, rfl, rfl, rfl⟩, rfl⟩
  split
  · exact .inr ⟨_, _, releaseLocked_sameWork p i, rfl⟩
  rename_i hopen
  split
  · refine .inl ⟨by simpa using hopen,
      { p with tokens := p.tokens.set i { t with committed := true } },
      ⟨rfl, rfl, rfl, rfl, rfl⟩, rfl⟩
  · exact .inr ⟨_, _, releaseLocked_sameWork p i, rfl⟩

/-- A worker moves one job from the queue to itself. -/
theorem take_cases {p p' : LocalPool} {k : Nat} {id : String} (h : p.take k = some (id, p')) :
    p.jobs[k]? = some id ∧
      p' = { p with jobs := p.jobs.eraseIdx k, running := p.running ++ [id] } := by
  unfold LocalPool.take at h
  split at h
  · simp only [Option.map_eq_some_iff, Prod.mk.injEq] at h
    obtain ⟨id', hk, rfl, rfl⟩ := h
    exact ⟨hk, rfl⟩
  · cases h

theorem take_jobs {p p' : LocalPool} {k : Nat} {id : String} (h : p.take k = some (id, p'))
    (y : String) : p'.jobs.count y + (decide (id = y)).toNat = p.jobs.count y := by
  obtain ⟨hk, rfl⟩ := take_cases h
  have hperm := List.getElem_cons_eraseIdx_perm (List.getElem?_eq_some_iff.mp hk).1
  have hcount := hperm.count_eq y
  rw [(List.getElem?_eq_some_iff.mp hk).2, List.count_cons] at hcount
  rw [← hcount]
  by_cases hy : id = y <;> simp [hy]

/-- A worker is done with a job it was running. -/
theorem finish_cases {p p' : LocalPool} {id : String} (h : p.finish id = some p') :
    id ∈ p.running ∧ p'.running = p.running.erase id ∧ p'.jobs = p.jobs ∧ p'.closed = p.closed ∧
      p'.unlimited = p.unlimited ∧ p'.workers = p.workers := by
  unfold LocalPool.finish at h
  split at h
  · rename_i hmem
    repeat' split at h
    all_goals cases h
    all_goals exact ⟨hmem, rfl, rfl, rfl, rfl, rfl⟩
  · cases h

/-- Both channels can be made exactly if that of the strings can. -/
theorem makechanOk_iff {room : Nat} {n : Int} :
    makechanOk room 0 n = true ∧ makechanOk room 16 n = true ↔ 0 ≤ n ∧ 16 * n ≤ room := by
  simp only [makechanOk, decide_eq_true_eq]
  omega

/-- A limited pool is made if its channels can be made. -/
theorem newLocalPool_limited {room : Nat} {cfg : Config} (hlimit : cfg.maxInflight ≠ 0) :
    newLocalPool room cfg =
      if 0 ≤ cfg.maxInflight ∧ 16 * cfg.maxInflight ≤ room then
        some { maxInflight := cfg.maxInflight.toNat
               workers := (min (max cfg.workers 1) cfg.maxInflight).toNat
               unlimited := false, closed := false
               sem := 0, jobs := [], running := [], tokens := [] }
      else none := by
  have hmax : (if cfg.workers < 1 then 1 else cfg.workers) = max cfg.workers 1 := by omega
  have hmin (w : Int) : (if w > cfg.maxInflight then cfg.maxInflight else w) =
      min w cfg.maxInflight := by omega
  simp only [newLocalPool, if_neg hlimit, hmax, hmin, ← makechanOk_iff]
  cases makechanOk room 0 cfg.maxInflight <;> cases makechanOk room 16 cfg.maxInflight <;> rfl

/-- A fresh pool; with a limit it has a worker. -/
theorem newLocalPool_cases {room : Nat} {cfg : Config} {p : LocalPool}
    (h : newLocalPool room cfg = some p) :
    p.jobs = [] ∧ p.running = [] ∧ p.closed = false ∧ (p.unlimited = false → 0 < p.workers) := by
  by_cases hlimit : cfg.maxInflight = 0
  · rw [newLocalPool, if_pos hlimit] at h
    cases h
    exact ⟨rfl, rfl, rfl, fun hu => by cases hu⟩
  · rw [newLocalPool_limited hlimit] at h
    split at h
    · rename_i hfits
      cases h
      refine ⟨rfl, rfl, rfl, fun _ => ?_⟩
      simp only
      omega
    · cases h

/-! ## Counting tokens -/

theorem unused_fresh : AdmitToken.unused { released := false, committed := false } = true := rfl

theorem unused_released (t : AdmitToken) :
    AdmitToken.unused { t with released := true } = false := by
  simp [AdmitToken.unused]

theorem unused_committed (t : AdmitToken) :
    AdmitToken.unused { t with committed := true } = false := by
  simp [AdmitToken.unused]

/-- Using up an unused token lowers the count by one. -/
theorem countP_use {ts : List AdmitToken} {i : Nat} {t t' : AdmitToken}
    (h : ts[i]? = some t) (ht : t.unused = true) (ht' : t'.unused = false) :
    (ts.set i t').countP AdmitToken.unused + 1 = ts.countP AdmitToken.unused := by
  induction ts generalizing i with
  | nil => simp at h
  | cons u us ih =>
    cases i with
    | zero =>
      simp only [List.getElem?_cons_zero, Option.some.injEq] at h
      subst h
      simp [ht, ht']
    | succ i =>
      simp only [List.getElem?_cons_succ] at h
      simp only [List.set_cons_succ, List.countP_cons]
      have := ih h
      omega

theorem countP_pos_of_unused {ts : List AdmitToken} {i : Nat} {t : AdmitToken}
    (h : ts[i]? = some t) (ht : t.unused = true) : 0 < ts.countP AdmitToken.unused :=
  List.countP_pos_iff.mpr ⟨t, List.mem_of_getElem? h, ht⟩

/-! ## One step -/

theorem newLocalPool_inv {room : Nat} {cfg : Config} (hc : 0 < cfg.maxInflight) {p : LocalPool}
    (h : newLocalPool room cfg = some p) : SemInv p := by
  rw [newLocalPool_limited (by omega)] at h
  split at h
  · cases h
    exact ⟨rfl, rfl, Nat.zero_le _⟩
  · cases h

theorem reserve_inv {p : LocalPool} (h : SemInv p) (ctxErr : Option String) :
    SemInv (p.reserve ctxErr).2 := by
  obtain ⟨hl, hc, hb⟩ := h
  unfold LocalPool.reserve
  split
  · exact ⟨hl, hc, hb⟩
  split
  · exact ⟨hl, hc, hb⟩
  rw [if_neg (by simp [hl])]
  split
  · rename_i hroom
    refine ⟨hl, ?_, hroom⟩
    simp only [LocalPool.issue, LocalPool.unusedTokens, List.countP_append,
      List.countP_singleton, unused_fresh] at hc ⊢
    simp only [if_true]
    omega
  · exact ⟨hl, hc, hb⟩

/-- `releaseLocked` frees the slot of an unused token and is a no-op on
any other. -/
theorem releaseLocked_inv {p : LocalPool} (h : SemInv p) (i : Nat) :
    SemInv (p.releaseLocked i) := by
  obtain ⟨hl, hc, hb⟩ := h
  unfold LocalPool.releaseLocked
  split
  · exact ⟨hl, hc, hb⟩
  rename_i t hi
  split
  · exact ⟨hl, hc, hb⟩
  rename_i hu
  have ht : t.unused = true := by simpa [AdmitToken.unused] using hu
  simp only [hl, Bool.false_eq_true, if_false]
  refine ⟨rfl, ?_, by simp only; omega⟩
  have hcount := countP_use hi ht (unused_released t)
  have hpos := countP_pos_of_unused hi ht
  simp only [LocalPool.unusedTokens] at hc ⊢
  omega

theorem commit_inv {p : LocalPool} (h : SemInv p) (i : Nat) (subID : String) :
    SemInv (p.commit i subID).2 := by
  unfold LocalPool.commit
  split
  · exact h
  rename_i t hi
  split
  · exact h
  rename_i hu
  split
  · exact releaseLocked_inv h i
  split
  · -- the slot passes from the token to the queued job
    obtain ⟨hl, hc, hb⟩ := h
    refine ⟨hl, ?_, hb⟩
    have ht : t.unused = true := by simpa [AdmitToken.unused] using hu
    have hcount := countP_use hi ht (unused_committed t)
    simp only [LocalPool.unusedTokens, List.length_append, List.length_singleton] at hc ⊢
    omega
  · exact releaseLocked_inv h i

theorem take_inv {p : LocalPool} (h : SemInv p) {k : Nat} {id : String} {p' : LocalPool}
    (ht : p.take k = some (id, p')) : SemInv p' := by
  obtain ⟨hl, hc, hb⟩ := h
  obtain ⟨hk, rfl⟩ := take_cases ht
  have hlt : k < p.jobs.length := (List.getElem?_eq_some_iff.mp hk).1
  refine ⟨hl, ?_, hb⟩
  simp only [LocalPool.unusedTokens, List.length_append, List.length_singleton,
    List.length_eraseIdx, hlt, if_true] at hc ⊢
  omega

theorem finish_inv {p : LocalPool} (h : SemInv p) {id : String} {p' : LocalPool}
    (hf : p.finish id = some p') : SemInv p' := by
  obtain ⟨hl, hc, hb⟩ := h
  unfold LocalPool.finish at hf
  split at hf
  · rename_i hmem
    simp only [hl, Bool.false_eq_true, if_false] at hf
    split at hf
    · cases hf
      have hlen := List.length_erase_of_mem hmem
      have hpos : 0 < p.running.length := List.length_pos_of_mem hmem
      refine ⟨rfl, ?_, by simp only; omega⟩
      simp only [LocalPool.unusedTokens] at hc ⊢
      omega
    · cases hf
  · cases hf

theorem poolStep_inv {p p' : LocalPool} {a : PoolAction} (h : SemInv p)
    (hs : poolStep a p = some p') : SemInv p' := by
  cases a with
  | reserve ctxErr => cases hs; exact reserve_inv h ctxErr
  | commit tok subID => cases hs; exact commit_inv h tok subID
  | release tok => cases hs; exact releaseLocked_inv h tok
  | close => cases hs; exact ⟨h.limited, h.conserved, h.bounded⟩
  | take k =>
    simp only [poolStep, Option.map_eq_some_iff] at hs
    obtain ⟨⟨id, q⟩, hk, rfl⟩ := hs
    exact take_inv h hk
  | finish id => exact finish_inv h hs

theorem poolSys_inv {p : LocalPool} (h : poolSys.Reach (fun _ _ => True) p) : SemInv p := by
  refine h.invariant ?_ ?_
  · rintro s ⟨room, cfg, hc, hn⟩
    exact newLocalPool_inv hc hn
  · intro s a s' hi _ hs
    exact poolStep_inv hi hs

/-! ## What the callers see -/

/-- A `Submit` is its calls: it takes the pool where a `Reserve`, a
`Commit` and a `Release` take it. -/
theorem submit_eq_run (p : LocalPool) (ctxErr : Option String) (subID : String) :
    ∃ acts, poolSys.run (fun _ _ => True) acts p = some (p.submit ctxErr subID).2 := by
  unfold LocalPool.submit
  cases hr : p.reserve ctxErr with
  | mk r q =>
    cases r with
    | error e =>
      exact ⟨[.reserve ctxErr], by simp [Sys.run, poolSys, poolStep, hr]⟩
    | ok tok =>
      cases hc : q.commit tok subID with
      | mk c q' =>
        cases c with
        | error e =>
          refine ⟨[.reserve ctxErr, .commit tok subID, .release tok], ?_⟩
          simp [Sys.run, poolSys, poolStep, hr, hc]
        | ok u =>
          refine ⟨[.reserve ctxErr, .commit tok subID], ?_⟩
          simp [Sys.run, poolSys, poolStep, hr, hc]

theorem SemInv.sem_pos_of_unused {p : LocalPool} (h : SemInv p) {i : Nat} {t : AdmitToken}
    (hi : p.tokens[i]? = some t) (ht : t.unused = true) : 0 < p.sem := by
  have hpos := countP_pos_of_unused hi ht
  have := h.conserved
  simp only [LocalPool.unusedTokens] at this
  omega

theorem SemInv.commit_not_full {p : LocalPool} (h : SemInv p) {i : Nat} {t : AdmitToken}
    (hi : p.tokens[i]? = some t) (ht : t.unused = true) (hopen : p.closed = false)
    (subID : String) : (p.commit i subID).1 = .ok () := by
  have hpos := countP_pos_of_unused hi ht
  have hc := h.conserved
  have hb := h.bounded
  simp only [LocalPool.unusedTokens] at hc
  have hroom : p.jobs.length < p.maxInflight := by omega
  have hu : (t.released || t.committed) = false := by
    simpa [AdmitToken.unused] using ht
  simp [LocalPool.commit, hi, hu, hopen, hroom]

/-- **Slots are conserved.** Over every interleaving of client calls,
worker steps and `Close` on a pool with a positive `MaxInflight`: `sem`
counts exactly the unused tokens, the queued and the running jobs, and so
stays within the limit; a release of an unused token, and the receive of
a finishing worker, find an element in `sem`; and an unused token of an
open pool commits. -/
theorem sem_conserved {p : LocalPool} (h : poolSys.Reach (fun _ _ => True) p) :
    p.sem = p.unusedTokens + p.jobs.length + p.running.length ∧
    p.sem ≤ p.maxInflight ∧
    (∀ (i : Nat) (t : AdmitToken), p.tokens[i]? = some t → t.unused = true → 0 < p.sem) ∧
    (∀ id ∈ p.running, (p.finish id).isSome) ∧
    (∀ (i : Nat) (t : AdmitToken) (subID : String),
      p.tokens[i]? = some t → t.unused = true → p.closed = false →
      (p.commit i subID).1 ≠ .error .backpressure) := by
  have hi := poolSys_inv h
  refine ⟨hi.conserved, hi.bounded, ?_, ?_, ?_⟩
  · intro i t ht hu
    exact hi.sem_pos_of_unused ht hu
  · intro id hid
    have hpos : 0 < p.running.length := List.length_pos_of_mem hid
    have hc := hi.conserved
    have hsem : 0 < p.sem := by omega
    simp [LocalPool.finish, hid, hi.limited, hsem]
  · intro i t subID ht hu hopen
    rw [hi.commit_not_full ht hu hopen subID]
    simp

/-- Two slots, one worker: a job runs while a second token is out. -/
theorem sem_conserved_two_slots :
    ∃ p : LocalPool, poolSys.Reach (fun _ _ => True) p ∧ p.running = ["sub_a"] ∧
      p.sem = 2 ∧ p.sem = p.unusedTokens + p.jobs.length + p.running.length := by
  let p : LocalPool :=
    { maxInflight := 2, workers := 1, unlimited := false, closed := false, sem := 2
      jobs := [], running := ["sub_a"]
      tokens := [{ released := false, committed := true },
                 { released := false, committed := false }] }
  let p₀ : LocalPool :=
    { maxInflight := 2, workers := 1, unlimited := false, closed := false, sem := 0
      jobs := [], running := [], tokens := [] }
  have h0 : poolSys.Reach (fun _ _ => True) p₀ :=
    Sys.Reach.init ⟨32, { maxInflight := 2, workers := 1 }, by decide, rfl⟩
  have hrun : poolSys.run (fun _ _ => True)
      [.reserve none, .reserve none, .commit 0 "sub_a", .take 0] p₀ = some p := rfl
  have hp : poolSys.Reach (fun _ _ => True) p := h0.of_run hrun
  exact ⟨p, hp, rfl, rfl, (sem_conserved hp).1⟩

end Scintx.Workers
