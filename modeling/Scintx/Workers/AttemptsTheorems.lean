/-
Scintx.Workers.AttemptsTheorems — a job is tried at most `MaxAttempts`
times.

The counter of a row is the number of claims the ledger has of it
(`ClaimLedgerInv`), so claims of one row are numbered 1, 2, 3, … as they come.
A claim is held by the worker that made it until it is used for
`Process` or given up (`AttemptInv.due`), so it is used at most once; and
it is only used if its number is within the bound.
-/
import Mathlib.Data.Finset.Card
import Mathlib.Order.Interval.Finset.Nat
import Scintx.Workers.Attempts

namespace Scintx.Workers

open Scintx.Lib Scintx.Api Scintx.Store Scintx.Orchestrator

/-! ## Numbered claims -/

/-- Each claim was numbered by the claims of its row so far; the last one
is first in the list. -/
def Numbered (claims : List Claim) : Prop :=
  ∀ c earlier, (c :: earlier) <:+ claims →
    c.attempts = (c :: earlier).countP (Claim.ofRow c.id c.row)

theorem Claim.ofRow_self (c : Claim) : c.ofRow c.id c.row = true := by
  simp [Claim.ofRow]

theorem Claim.ofRow_iff {c : Claim} {id : String} {row : Nat} :
    c.ofRow id row = true ↔ c.id = id ∧ c.row = row := by
  simp [Claim.ofRow]

theorem Numbered.tail {c : Claim} {l : List Claim} (h : Numbered (c :: l)) : Numbered l :=
  fun d earlier hd => h d earlier (hd.trans (List.suffix_cons c l))

theorem Numbered.cons {c : Claim} {l : List Claim} (h : Numbered l)
    (hc : c.attempts = l.countP (Claim.ofRow c.id c.row) + 1) : Numbered (c :: l) := by
  intro d earlier hd
  rcases List.suffix_cons_iff.mp hd with heq | hd
  · cases heq
    rw [List.countP_cons_of_pos (Claim.ofRow_self c)]
    exact hc
  · exact h d earlier hd

/-- A claim is numbered from one up to the number of claims of its row. -/
theorem Numbered.bounds {l : List Claim} (h : Numbered l) {c : Claim} (hc : c ∈ l) :
    1 ≤ c.attempts ∧ c.attempts ≤ l.countP (Claim.ofRow c.id c.row) := by
  obtain ⟨later, earlier, rfl⟩ := List.append_of_mem hc
  have hnumber := h c earlier (List.suffix_append later _)
  rw [List.countP_append]
  rw [List.countP_cons_of_pos (Claim.ofRow_self c)] at hnumber ⊢
  omega

/-- No claim is made twice. -/
theorem Numbered.nodup {l : List Claim} (h : Numbered l) : l.Nodup := by
  induction l with
  | nil => exact List.nodup_nil
  | cons c l ih =>
    refine List.nodup_cons.mpr ⟨fun hc => ?_, ih h.tail⟩
    have hle := (h.tail.bounds hc).2
    have hnumber := h c l (List.suffix_refl _)
    rw [List.countP_cons_of_pos (Claim.ofRow_self c)] at hnumber
    omega

/-! ## The ledger follows the counters -/

structure ClaimLedgerInv (f : String → Option Nat) (l : ClaimLedger) : Prop where
  counter : ∀ id n, f id = some n → n = l.claims.countP (Claim.ofRow id (l.rowOf id))
  past : ∀ c ∈ l.claims, c.row ≤ l.rowOf c.id
  numbered : Numbered l.claims

section Note

variable {f f' : String → Option Nat} {l : ClaimLedger} {call : JobCall} {reply : JobReply}

theorem creates_eq_some {id : String} (h : creates f reply call = some id) : f id = none := by
  cases call with
  | enqueue k =>
    obtain ⟨hnew, ⟨⟩⟩ := Option.ite_none_right_eq_some.mp h
    exact hnew.2
  | _ => cases h

theorem rowOf_note (l : ClaimLedger) (id : String) :
    (l.note f call reply).rowOf id = (creates f reply call).toList.count id + l.rowOf id :=
  List.count_append

/-- A row that is there keeps its number. -/
theorem rowOf_note_of_some {id : String} {n : Nat} (h : f id = some n) :
    (l.note f call reply).rowOf id = l.rowOf id := by
  have hnew : (creates f reply call).toList.count id = 0 := by
    refine List.count_eq_zero_of_not_mem fun hmem => ?_
    rw [creates_eq_some (Option.mem_toList.mp hmem)] at h
    cases h
  rw [rowOf_note, hnew, Nat.zero_add]

theorem note_claims_of_none (l : ClaimLedger) (f : String → Option Nat) (call : JobCall)
    (h : reply.job = none) :
    (l.note f call reply).claims = l.claims := by
  simp [ClaimLedger.note, ClaimLedger.ticket, h]

/-- No claim of a row that is yet to come. -/
theorem ClaimLedgerInv.countP_new (h : ClaimLedgerInv f l) {id : String} {row : Nat}
    (hrow : l.rowOf id < row) : l.claims.countP (Claim.ofRow id row) = 0 := by
  refine List.countP_eq_zero.mpr fun c hc hofRow => ?_
  obtain ⟨rfl, rfl⟩ := Claim.ofRow_iff.mp hofRow
  have := h.past c hc
  omega

/-- Rows only get later numbers. -/
theorem ClaimLedgerInv.past_note (h : ClaimLedgerInv f l) (call : JobCall) (reply : JobReply) :
    ∀ c ∈ l.claims, c.row ≤ (l.note f call reply).rowOf c.id := by
  intro c hc
  have := h.past c hc
  rw [rowOf_note]
  omega

/-- A call that claims nothing: the counters it leaves have to be counts
of the claims as they are. -/
theorem ClaimLedgerInv.note_of_none (h : ClaimLedgerInv f l) (hreply : reply.job = none)
    (hcounter : ∀ id n, f' id = some n →
      f id = some n ∨ n = l.claims.countP (Claim.ofRow id ((l.note f call reply).rowOf id))) :
    ClaimLedgerInv f' (l.note f call reply) := by
  have hclaims := note_claims_of_none l f call hreply
  refine ⟨fun id n hn => ?_, hclaims ▸ h.past_note call reply, hclaims ▸ h.numbered⟩
  rw [hclaims]
  rcases hcounter id n hn with hold | hnew
  · rw [rowOf_note_of_some hold]
    exact h.counter id n hold
  · exact hnew

/-- A claim raises the counter of its row by one. -/
theorem ClaimLedgerInv.note_claimed (h : ClaimLedgerInv f l) {id : String} {n : Nat}
    (hrow : f id = some n) (hreply : reply.job = some (id, n + 1)) :
    ClaimLedgerInv (Function.update f id (some (n + 1))) (l.note f call reply) := by
  have hcount := h.counter id n hrow
  let claim : Claim := { id := id, attempts := n + 1, row := l.rowOf id }
  have hclaims : (l.note f call reply).claims = claim :: l.claims := by
    simp [ClaimLedger.note, ClaimLedger.ticket, hreply, claim]
  refine ⟨fun y m hm => ?_, fun c hc => ?_, ?_⟩
  · rw [hclaims]
    by_cases hy : y = id
    · subst hy
      rw [Function.update_self] at hm
      cases hm
      rw [rowOf_note_of_some hrow, List.countP_cons_of_pos claim.ofRow_self, ← hcount]
    · rw [Function.update_of_ne hy] at hm
      have hother : ¬ claim.ofRow y (l.rowOf y) = true :=
        fun hof => hy (Claim.ofRow_iff.mp hof).1.symm
      rw [rowOf_note_of_some hm, List.countP_cons_of_neg hother]
      exact h.counter y m hm
  · rw [hclaims] at hc
    rcases List.mem_cons.mp hc with rfl | hc
    · exact (rowOf_note_of_some hrow).ge
    · exact h.past_note call reply c hc
  · rw [hclaims]
    exact h.numbered.cons (congrArg (· + 1) hcount)

theorem ClaimLedgerInv.note (h : ClaimLedgerInv f l) (hcall : Counted f call reply f') :
    ClaimLedgerInv f' (l.note f call reply) := by
  cases hcall with
  | same hreply => exact h.note_of_none hreply fun id n hn => .inl hn
  | @created id hnew =>
    have hrow : (l.note f (.enqueue id) .done).rowOf id = l.rowOf id + 1 := by
      simp [rowOf_note, creates, hnew, Nat.add_comm]
    refine h.note_of_none rfl fun y n hn => ?_
    by_cases hy : y = id
    · subst hy
      rw [Function.update_self] at hn
      cases hn
      rw [hrow]
      exact .inr (h.countP_new (Nat.lt_succ_self _)).symm
    · rw [Function.update_of_ne hy] at hn
      exact .inl hn
  | claimed hrow => exact h.note_claimed hrow rfl
  | @removed _ _ id hreply =>
    refine h.note_of_none hreply fun y n hn => ?_
    by_cases hy : y = id
    · rw [hy, Function.update_self] at hn
      cases hn
    · rw [Function.update_of_ne hy] at hn
      exact .inl hn

end Note

/-! ## Claims held and used -/

/-- The claim a worker may still use for `Process`. -/
def LoopPc.due : LoopPc → List Claim
  | .claimed c => [c]
  | _ => []

/-- A step passes a claim on: from the reply to the worker, from the
worker to `Process`. -/
theorem LoopPc.next_due {p : QueuePool} {l : ClaimLedger} {ch : LoopChoice} {reply : JobReply}
    {pc pc' : LoopPc} (h : pc.next p l ch reply = some pc') (c : Claim) :
    pc'.due.count c + (pc.invokes pc').toList.count c ≤
      pc.due.count c + (l.ticket reply).toList.count c := by
  cases pc with
  | polling =>
    simp only [LoopPc.next] at h
    split at h <;> cases h <;> simp [LoopPc.due, LoopPc.invokes]
  | claiming =>
    simp only [LoopPc.next] at h
    cases hticket : l.ticket reply with
    | none | some d =>
      rw [hticket] at h
      cases h
      simp [LoopPc.due, LoopPc.invokes]
  | claimed d =>
    simp only [LoopPc.next] at h
    split at h
    · cases h
      simp [LoopPc.due, LoopPc.invokes]
    · cases h
      simp [LoopPc.due, LoopPc.invokes]
    · split at h
      · cases h
        simp [LoopPc.due, LoopPc.invokes]
      · split at h <;> cases h <;> simp [LoopPc.due, LoopPc.invokes]
  | exceeded d | processing d | completing d =>
    cases h
    simp [LoopPc.due, LoopPc.invokes]
  | stopped => cases h

/-- `Process` is invoked for a claim within the bound. -/
theorem LoopPc.next_invokes {p : QueuePool} {l : ClaimLedger} {ch : LoopChoice} {reply : JobReply}
    {pc pc' : LoopPc} (h : pc.next p l ch reply = some pc') {c : Claim}
    (hc : pc.invokes pc' = some c) : c.attempts ≤ p.maxAttempts := by
  cases pc with
  | claimed d =>
    simp only [LoopPc.next] at h
    split at h
    · cases h
      cases hc
    · cases h
      cases hc
    · split at h
      · cases h
        cases hc
      · split at h
        · cases h
          cases hc
        · rename_i hle
          cases h
          cases hc
          exact not_lt.mp hle
  | _ => cases hc

structure AttemptInv (max : Int) (s : AttemptState) : Prop where
  ledger : ClaimLedgerInv s.jobs.attempts s.ledger
  pools : ∀ p ∈ s.pools, p.maxAttempts = attemptBound max
  /-- A claim is held or used at most as often as it was made. -/
  due : ∀ c, (s.workers.flatMap (·.pc.due)).count c + s.invocations.count c ≤
    s.ledger.claims.count c
  bounded : ∀ c ∈ s.invocations, c.attempts ≤ attemptBound max

/-- A call on the queue changes the queue and the ledger only. -/
structure Called (s s' : AttemptState) (reply : JobReply) : Prop where
  pools : s'.pools = s.pools
  workers : s'.workers = s.workers
  invocations : s'.invocations = s.invocations
  claims : s'.ledger.claims = (s.ledger.ticket reply).toList ++ s.ledger.claims
  ledger : ClaimLedgerInv s.jobs.attempts s.ledger → ClaimLedgerInv s'.jobs.attempts s'.ledger

theorem perform_called (s : AttemptState) (now : Time) (call : JobCall) :
    Called s (s.perform now call).2 (s.perform now call).1 :=
  ⟨rfl, rfl, rfl, rfl, fun h => h.note (s.jobs.call_counted now call)⟩

theorem answer_called (s : AttemptState) (call : Option JobCall) (ch : LoopChoice) :
    Called s (s.answer call ch).2 (s.answer call ch).1 := by
  unfold AttemptState.answer
  split
  · exact ⟨rfl, rfl, rfl, rfl, id⟩
  · split
    · exact perform_called s ch.now _
    · exact ⟨rfl, rfl, rfl, rfl, id⟩

section Steps

variable {max : Int} {s s' : AttemptState}

theorem AttemptInv.called (h : AttemptInv max s) {reply : JobReply} (hcall : Called s s' reply) :
    AttemptInv max s' := by
  refine ⟨hcall.ledger h.ledger, hcall.pools ▸ h.pools, fun c => ?_, hcall.invocations ▸ h.bounded⟩
  have hdue := h.due c
  rw [hcall.workers, hcall.invocations, hcall.claims, List.count_append]
  omega

/-- A worker that loses its claim. -/
theorem AttemptInv.dropped (h : AttemptInv max s) {i : Nat} {w w' : LoopWorker}
    (hi : s.workers[i]? = some w) (hw : w'.pc.due = []) :
    AttemptInv max { s with workers := s.workers.set i w' } := by
  refine ⟨h.ledger, h.pools, fun c => ?_, h.bounded⟩
  have hdue := h.due c
  have hset := count_flatMap_set (fun w : LoopWorker => w.pc.due) c hi w'
  rw [hw, List.count_nil] at hset
  dsimp only
  omega

theorem AttemptInv.turn (h : AttemptInv max s) {i : Nat} {w : LoopWorker} {p : QueuePool}
    {ch : LoopChoice} (hi : s.workers[i]? = some w) (hp : p ∈ s.pools)
    (hturn : s.turn i w p ch = some s') : AttemptInv max s' := by
  obtain ⟨pc, hnext, rfl⟩ := Option.map_eq_some_iff.mp hturn
  have hcall := answer_called s (w.pc.call p (p.workerOwner w.number) ch.order) ch
  refine ⟨hcall.ledger h.ledger, hcall.pools ▸ h.pools, fun c => ?_, fun c hc => ?_⟩
  · have hdue := h.due c
    have hset := count_flatMap_set (fun w : LoopWorker => w.pc.due) c hi { w with pc := pc }
    have hpassed := LoopPc.next_due hnext c
    dsimp only at hset ⊢
    rw [hcall.claims, List.count_append, List.count_append]
    omega
  · rcases List.mem_append.mp hc with hnew | hold
    · have hle := LoopPc.next_invokes hnext (Option.mem_toList.mp hnew)
      rwa [h.pools p hp] at hle
    · exact h.bounded c hold

theorem AttemptInv.step (h : AttemptInv max s) {a : AttemptAction} (hmax : SameMax max s a)
    (hstep : attemptStep a s = some s') : AttemptInv max s' := by
  cases a with
  | boot cfg workerID =>
    cases hstep
    refine ⟨h.ledger, fun p hp => ?_, h.due, h.bounded⟩
    rcases List.mem_append.mp hp with hold | hnew
    · exact h.pools p hold
    · obtain rfl : cfg.maxAttempts = max := hmax
      rw [List.mem_singleton.mp hnew]
      rfl
  | start g n =>
    cases hstep
    refine ⟨h.ledger, h.pools, fun c => ?_, h.bounded⟩
    simpa [LoopPc.due] using h.due c
  | worker i ch =>
    obtain ⟨w, hi, hstep⟩ := Option.bind_eq_some_iff.mp hstep
    obtain ⟨p, hp, hturn⟩ := Option.bind_eq_some_iff.mp hstep
    exact h.turn hi (List.mem_of_getElem? hp) hturn
  | heartbeat i id now =>
    obtain ⟨w, hi, hstep⟩ := Option.bind_eq_some_iff.mp hstep
    obtain ⟨p, hp, rfl⟩ := Option.map_eq_some_iff.mp hstep
    exact h.called (perform_called s now _)
  | panic i =>
    obtain ⟨w, hi, hstep⟩ := Option.bind_eq_some_iff.mp hstep
    obtain ⟨pc, hpc, rfl⟩ := Option.map_eq_some_iff.mp hstep
    have hpolling : pc = .polling := by
      unfold LoopPc.recovered at hpc
      split at hpc <;> cases hpc <;> rfl
    exact h.dropped hi (by rw [hpolling]; rfl)
  | crash i =>
    obtain ⟨w, hi, rfl⟩ := Option.map_eq_some_iff.mp hstep
    exact h.dropped hi rfl
  | close g =>
    obtain ⟨p, hp, rfl⟩ := Option.map_eq_some_iff.mp hstep
    refine ⟨h.ledger, fun q hq => ?_, h.due, h.bounded⟩
    rcases mem_set_cases hq with rfl | hold
    · exact h.pools p (List.mem_of_getElem? hp)
    · exact h.pools q hold
  | outside call now =>
    cases hstep
    exact h.called (perform_called s now call)

theorem attemptInv_reach (h : attemptSys.Reach (SameMax max) s) : AttemptInv max s := by
  refine h.invariant (fun s hinit => ?_) fun s a s' hinv hmax hstep => hinv.step hmax hstep
  obtain ⟨hcounts, hpools, hworkers, hledger, hinvocations⟩ := hinit
  refine ⟨⟨fun id n hn => ?_, ?_, ?_⟩, ?_, fun c => ?_, ?_⟩
  · rw [hcounts id] at hn
    cases hn
  · simp [hledger]
  · rw [hledger]
    intro c earlier hsuffix
    cases List.suffix_nil.mp hsuffix
  · simp [hpools]
  · simp [hworkers, hinvocations]
  · simp [hinvocations]

end Steps

/-! ## At most `MaxAttempts` -/

/-- Different claims of one row, numbered from one up to a bound. -/
theorem length_le_of_numbered {l : List Claim} {id : String} {row : Nat} {bound : Int}
    (hnodup : l.Nodup) (hrow : ∀ c ∈ l, c.ofRow id row = true)
    (hbounds : ∀ c ∈ l, 1 ≤ c.attempts ∧ (c.attempts : Int) ≤ bound) (hbound : 0 ≤ bound) :
    (l.length : Int) ≤ bound := by
  have hinj : (l.map (·.attempts)).Nodup := by
    refine List.Nodup.map_on (fun c hc d hd heq => ?_) hnodup
    obtain ⟨hid, hr⟩ := Claim.ofRow_iff.mp (hrow c hc)
    obtain ⟨hid', hr'⟩ := Claim.ofRow_iff.mp (hrow d hd)
    cases c
    cases d
    simp_all
  have hsub : (l.map (·.attempts)).toFinset ⊆ Finset.Icc 1 bound.toNat := by
    intro n hn
    obtain ⟨c, hc, rfl⟩ := List.mem_map.mp (List.mem_toFinset.mp hn)
    obtain ⟨hlow, hhigh⟩ := hbounds c hc
    exact Finset.mem_Icc.mpr ⟨hlow, by omega⟩
  have hcard := Finset.card_le_card hsub
  rw [List.toFinset_card_of_nodup hinj, List.length_map, Nat.card_Icc] at hcard
  omega

/-- In every run of any number of processes that share a `MaxAttempts`,
on either store: a claim returns the number of claims of its row so far,
`Process` is invoked for no claim beyond the bound, and for the claims of
one row at most as often as the bound says. A worker may still invoke
`Process` when its row is gone and the submission has a new one; that
invocation counts for the row it claimed. -/
theorem job_attempts_bounded (max : Int) {s : AttemptState}
    (h : attemptSys.Reach (SameMax max) s) :
    (∀ c earlier, (c :: earlier) <:+ s.ledger.claims →
      c.attempts = (c :: earlier).countP (Claim.ofRow c.id c.row)) ∧
    (∀ c ∈ s.invocations, c ∈ s.ledger.claims ∧ c.attempts ≤ attemptBound max) ∧
    ∀ id row, (s.invocations.countP (Claim.ofRow id row) : Int) ≤ attemptBound max := by
  have hinv := attemptInv_reach h
  have hused : ∀ c, s.invocations.count c ≤ s.ledger.claims.count c := fun c => by
    have := hinv.due c
    omega
  have hmade : ∀ c ∈ s.invocations, c ∈ s.ledger.claims := by
    intro c hc
    have hpos := List.count_pos_iff.mpr hc
    have := hused c
    exact List.count_pos_iff.mp (by omega)
  refine ⟨hinv.ledger.numbered, fun c hc => ⟨hmade c hc, hinv.bounded c hc⟩, fun id row => ?_⟩
  have hnodup : s.invocations.Nodup := by
    refine List.nodup_iff_count_le_one.mpr fun c => (hused c).trans ?_
    exact List.nodup_iff_count_le_one.mp hinv.ledger.numbered.nodup c
  rw [List.countP_eq_length_filter]
  refine length_le_of_numbered (hnodup.filter _) (fun c hc => (List.mem_filter.mp hc).2)
    (fun c hc => ?_) ?_
  · have hmem := (List.mem_filter.mp hc).1
    exact ⟨(hinv.ledger.numbered.bounds (hmade c hmem)).1, hinv.bounded c hmem⟩
  · unfold attemptBound
    split <;> omega

def emptyQueue (jobs : JobStore) : AttemptState where
  jobs := jobs
  pools := []
  workers := []
  ledger := {}
  invocations := []

/-- A worker invokes `Process`, its lease ends, and a second one claims
the job beyond the bound of one attempt. -/
def retriedJob : List AttemptAction :=
  [.boot { maxAttempts := 1 } "host", .start 0 0, .start 0 1, .outside (.enqueue "sub") 0,
    .worker 0 {}, .worker 0 { now := 1, order := ["sub"] }, .worker 0 { read := .found .running },
    .worker 1 {}, .worker 1 { now := 200000000000, order := ["sub"] },
    .worker 1 { read := .found .running }]

theorem job_attempts_bounded_retried :
    ∃ s, attemptSys.Reach (SameMax 1) s ∧
      (s.ledger.claims.map (·.attempts), s.invocations.map (·.attempts), s.workers.map (·.pc)) =
        ([2, 1], [1], [.processing { id := "sub", attempts := 1, row := 1 },
          .exceeded { id := "sub", attempts := 2, row := 1 }]) ∧
      ∀ id row, (s.invocations.countP (Claim.ofRow id row) : Int) ≤ attemptBound 1 := by
  have hinit : attemptSys.init (emptyQueue (.memory .empty)) :=
    ⟨fun id => by simp [emptyQueue, JobStore.attempts_memory], rfl, rfl, rfl, rfl⟩
  have hrun : (attemptSys.run (SameMax 1) retriedJob (emptyQueue (.memory .empty))).map
      (fun s => (s.ledger.claims.map (·.attempts), s.invocations.map (·.attempts),
        s.workers.map (·.pc))) =
      some ([2, 1], [1], [.processing { id := "sub", attempts := 1, row := 1 },
        .exceeded { id := "sub", attempts := 2, row := 1 }]) := by decide +kernel
  obtain ⟨s, hreach, hs⟩ := (Sys.Reach.init hinit).of_run_map hrun
  exact ⟨s, hreach, hs, (job_attempts_bounded 1 hreach).2.2⟩

/-! ## The worker on the memory store -/

/-- The same place in `claimLoop` and `runClaimed`. -/
inductive WorkerPc.Views : WorkerPc → LoopPc → Prop
  | polling : Views .polling .polling
  | claiming : Views .claiming .claiming
  | claimed (c : Claim) : Views (.claimed c.id c.attempts) (.claimed c)
  | exceeded (c : Claim) (sub : Submission) : Views (.exceeded c.id sub) (.exceeded c)
  | processing {c : Claim} {r : Run} (env : RunEnv) (hid : c.id = r.subID) :
      Views (.processing r env) (.processing c)
  | completing (c : Claim) : Views (.completing c.id) (.completing c)
  | stopped : Views .stopped .stopped

section View

variable [GoStd] {o : Orchestrator} {p : QueuePool} {owner : String} {env : RunEnv} {ch : Choice}
  {w w' : World} {pc pc' : WorkerPc} {l : LoopPc} {s : AttemptState}

/-- What a step of the worker of `RunClaimed` comes to here, from the place
`l`: the same step, with its choices and its effect on the queue. -/
def Follows (p : QueuePool) (owner : String) (s : AttemptState) (l : LoopPc) (w' : World)
    (pc' : WorkerPc) : Prop :=
  ∃ ch' l', l.next p s.ledger ch' (s.answer (l.call p owner ch'.order) ch').1 = some l' ∧
    (s.answer (l.call p owner ch'.order) ch').2.jobs = .memory w'.store.jobs ∧ pc'.Views l'

theorem follows_polling (hjobs : s.jobs = .memory w.store.jobs)
    (h : WorkerPc.polling.step o p owner env ch w = some (w', pc')) :
    Follows p owner s .polling w' pc' := by
  cases WorkerPc.step_move h with
  | stop hstop =>
    refine ⟨{ cancelled := ch.cancelled.isSome }, .stopped, ?_, hjobs, .stopped⟩
    simp [LoopPc.next, hstop, Option.isSome_iff_ne_none]
  | poll hgo =>
    refine ⟨{ cancelled := ch.cancelled.isSome }, .claiming, ?_, hjobs, .claiming⟩
    simp [LoopPc.next, hgo, Option.isSome_iff_ne_none]

theorem follows_claiming (hjobs : s.jobs = .memory w.store.jobs)
    (h : WorkerPc.claiming.step o p owner env ch w = some (w', pc')) :
    Follows p owner s .claiming w' pc' := by
  cases WorkerPc.step_move h with
  | claimFailed => exact ⟨{ storeErr := some "" }, .polling, rfl, hjobs, .polling⟩
  | @claim id attempts _ hclaim =>
    refine ⟨{ now := ch.now, order := ch.order }, ?_⟩
    simp only [LoopPc.call, AttemptState.answer, AttemptState.perform, hjobs, JobStore.call,
      JobCall.onMemory, LoopPc.next, ClaimLedger.ticket, hclaim]
    exact ⟨_, rfl, rfl, .claimed ⟨id, attempts, s.ledger.rowOf id⟩⟩
  | unclaimed hclaim hnone =>
    rename_i out jobs
    refine ⟨{ now := ch.now, order := ch.order }, ?_⟩
    have hjob : (JobReply.ofClaim out).job = none := by
      cases out with
      | error e => rfl
      | ok job =>
        cases job with
        | none => rfl
        | some job => exact absurd rfl (hnone job.1 job.2)
    simp only [LoopPc.call, AttemptState.answer, AttemptState.perform, hjobs, JobStore.call,
      JobCall.onMemory, LoopPc.next, ClaimLedger.ticket, hclaim, hjob]
    exact ⟨.polling, rfl, rfl, .polling⟩

theorem follows_claimed {c : Claim} (hjobs : s.jobs = .memory w.store.jobs)
    (h : (WorkerPc.claimed c.id c.attempts).step o p owner env ch w = some (w', pc')) :
    Follows p owner s (.claimed c) w' pc' := by
  cases WorkerPc.step_move h with
  | readFailed => exact ⟨{ read := .failed }, .completing c, rfl, hjobs, .completing c⟩
  | missing => exact ⟨{ read := .missing }, .completing c, rfl, hjobs, .completing c⟩
  | @settled _ _ sub _ hfinal =>
    exact ⟨{ read := .found sub.status }, .completing c, if_pos hfinal, hjobs, .completing c⟩
  | @exceed _ _ sub _ hopen hmax =>
    refine ⟨{ read := .found sub.status }, .exceeded c, ?_, hjobs, .exceeded c sub⟩
    exact (if_neg hopen).trans (if_pos hmax)
  | @enter _ _ sub _ hopen hmax =>
    refine ⟨{ read := .found sub.status }, .processing c, ?_, hjobs, .processing env rfl⟩
    exact (if_neg hopen).trans (if_neg hmax)

theorem follows_completing {c : Claim} (hjobs : s.jobs = .memory w.store.jobs)
    (h : (WorkerPc.completing c.id).step o p owner env ch w = some (w', pc')) :
    Follows p owner s (.completing c) w' pc' := by
  cases WorkerPc.step_move h with
  | completeFailed => exact ⟨{ storeErr := some "" }, .polling, rfl, hjobs, .polling⟩
  | complete =>
    refine ⟨{}, .polling, rfl, ?_, .polling⟩
    simp only [LoopPc.call, AttemptState.answer, AttemptState.perform, hjobs, JobStore.call,
      JobCall.onMemory]
    rfl

/-- **A worker of `RunClaimed` takes the steps of this one**, up to those
inside `Process`, which leave the queue alone. -/
theorem WorkerPc.step_view (hformed : pc.Formed) (hview : pc.Views l)
    (hjobs : s.jobs = .memory w.store.jobs) (h : pc.step o p owner env ch w = some (w', pc')) :
    (pc'.Views l ∧ w'.store.jobs = w.store.jobs) ∨ Follows p owner s l w' pc' := by
  cases hview with
  | polling => exact .inr (follows_polling hjobs h)
  | claiming => exact .inr (follows_claiming hjobs h)
  | claimed c => exact .inr (follows_claimed hjobs h)
  | exceeded c sub =>
    cases WorkerPc.step_move h <;> exact .inr ⟨{}, .completing c, rfl, hjobs, .completing c⟩
  | @processing c r env' hid =>
    cases WorkerPc.step_move h with
    | returned => exact .inr ⟨{}, .completing c, rfl, hjobs, hid ▸ .completing c⟩
    | run hcall =>
      obtain ⟨hsame, -, hown⟩ := Run.step_own hformed hcall
      exact .inl ⟨.processing env' (hid.trans hsame.symm), hown.admission.jobs⟩
  | completing c => exact .inr (follows_completing hjobs h)
  | stopped => cases h

end View

end Scintx.Workers
