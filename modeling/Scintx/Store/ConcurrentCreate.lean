/-
Scintx.Store.ConcurrentCreate — many `PutSubmissionIdempotent` at once, on
Postgres.

Transactions with one key run statement by statement, in any
interleaving, under READ COMMITTED. Each one files its submission before
it binds the key, so for a while several new rows exist; who binds the key
first wins. The others wait for the key, find it bound, drop their own row
and answer with the winner's submission, or give up because the
fingerprints differ.

The invariant has two phases. Before the winner commits, the transactions
see nothing of each other, and at most one of them has bound the key,
because it has it locked. After that, the database is the one at the start
with the winner's two rows, and every other transaction is on its way to
the answer that is due to it.

With an empty key, every call creates its own submission, and with a key
that was bound before, none does (`unguarded_keys`).
-/
import Scintx.Store.SqlSubmissions

namespace Scintx.Store

open Scintx.Lib Scintx.Lib.Transaction Scintx.Api

/-- One call; all of them have the same key. -/
structure KeyedPut where
  hash : String
  sub : Submission

abbrev PutSession := Session RowKey RowType (Except SqlError (Submission × Bool))

namespace KeyedPut

variable (key : String) (r w : KeyedPut)

def program : SQLStore.Program (Submission × Bool) :=
  SQLStore.putSubmissionIdempotent key r.hash r.sub

/-- The row a request files, its removal, and the binding of the key. -/
def row : Write RowKey RowType := ⟨.submission r.sub.id, some (.of r.sub)⟩

def dropped : Write RowKey RowType := ⟨.submission r.sub.id, none⟩

def binding : IdempotencyRow := ⟨r.sub.id, r.hash⟩

def bound : Write RowKey RowType := ⟨.idempotency key, some r.binding⟩

/-- What a request gets that lost against `w`. -/
def answer : Except SqlError (Submission × Bool) :=
  if SQLStore.conflicts w.hash r.hash then .error (.store .idempotencyConflict)
  else .ok (cloneJSON w.sub, false)

/-- The key is bound, and not committed. -/
def winning : PutSession :=
  .running (SQLStore.created r.sub) [r.row, r.bound key]
    [.submission r.sub.id, .idempotency key]

variable {key r w}

/-- A call looks its key up first. -/
theorem program_eq (r : KeyedPut) (hkey : key ≠ "") :
    ∃ next, r.program key = .exec (.select (.idempotency key)) next ∧
      next none = SQLStore.storeNew key r.hash r.sub ∧
      ∀ row, next (some row) = SQLStore.replay key r.hash row :=
  ⟨_, if_neg hkey, rfl, fun _ => rfl⟩

theorem answer_of_conflicts (h : SQLStore.conflicts w.hash r.hash) :
    r.answer w = .error (.store .idempotencyConflict) := if_pos h

theorem answer_of_agree (h : ¬SQLStore.conflicts w.hash r.hash) :
    r.answer w = .ok (cloneJSON w.sub, false) := if_neg h

end KeyedPut

/-- Requests with one key, each at its start. -/
def concurrentPuts (key : String) (db : SqlDb) (reqs : List KeyedPut) :
    Sys (State RowKey RowType (Except SqlError (Submission × Bool))) Nat :=
  interleaving db (reqs.map (·.program key))

/-- A key that is given and free, and ids that are new and distinct. -/
structure FreshPuts (key : String) (db : SqlDb) (reqs : List KeyedPut) : Prop where
  key_ne : key ≠ ""
  key_free : db (.idempotency key) = none
  ids_nodup : (reqs.map (·.sub.id)).Nodup
  ids_new : ∀ r ∈ reqs, db (.submission r.sub.id) = none

/-! ## Where a transaction can be -/

/-- Before it has tried to bind the key. -/
inductive Pending (key : String) (r : KeyedPut) : PutSession → Prop
  | lookup : Pending key r (.running (r.program key) [] [])
  | store : Pending key r (.running (SQLStore.storeNew key r.hash r.sub) [] [])
  | bind : Pending key r (.running (SQLStore.bindKey key r.hash r.sub) [r.row]
      [.submission r.sub.id])

/-- After `w` won. -/
inductive Losing (key : String) (w r : KeyedPut) : PutSession → Prop
  | pending {t : PutSession} (h : Pending key r t) : Losing key w r t
  | reread : Losing key w r (.running (SQLStore.lostRace key r.hash r.sub) [r.row]
      [.submission r.sub.id])
  | drop (h : ¬SQLStore.conflicts w.hash r.hash) :
      Losing key w r (.running (SQLStore.dropOrphan r.sub w.binding) [r.row]
        [.submission r.sub.id])
  | loadWinner (h : ¬SQLStore.conflicts w.hash r.hash) {locks : List RowKey}
      (hlocks : ∀ k ∈ locks, k = .submission r.sub.id) :
      Losing key w r (.running (SQLStore.loadWinner w.binding) [r.row, r.dropped] locks)
  | loadExisting (h : ¬SQLStore.conflicts w.hash r.hash) :
      Losing key w r (.running (SQLStore.loadExisting key w.binding) [] [])
  | refused (h : SQLStore.conflicts w.hash r.hash) {writes : List (Write RowKey RowType)}
      {locks : List RowKey} (hlocks : ∀ k ∈ locks, k = .submission r.sub.id) :
      Losing key w r (.running (SQLStore.failWith .idempotencyConflict) writes locks)
  | answered (h : ¬SQLStore.conflicts w.hash r.hash) {writes : List (Write RowKey RowType)}
      {locks : List RowKey} (hwrites : writes = [] ∨ writes = [r.row, r.dropped])
      (hlocks : ∀ k ∈ locks, k = .submission r.sub.id) :
      Losing key w r (.running (.commit (.ok (cloneJSON w.sub, false))) writes locks)
  | finished : Losing key w r (.done (r.answer w))

/-- What the winner leaves. -/
def KeyedPut.committed (key : String) (w : KeyedPut) (db : SqlDb) : SqlDb :=
  (db.write w.row).write (w.bound key)

/-! ## What the rows of a request hide -/

namespace KeyedPut

variable (r : KeyedPut) (db : SqlDb)

@[simp] theorem write_row_self : db.write r.row (.submission r.sub.id) = some (.of r.sub) :=
  Db.write_self ..

@[simp] theorem write_row_key (key : String) :
    db.write r.row (.idempotency key) = db (.idempotency key) :=
  Db.write_ne db _ (by simp)

theorem write_row_ne {id : String} (h : id ≠ r.sub.id) :
    db.write r.row (.submission id) = db (.submission id) :=
  Db.write_ne db _ (by simp [h])

variable {db} in
theorem write_row_dropped (h : db (.submission r.sub.id) = none) :
    (db.write r.row).write r.dropped = db :=
  Db.write_removed h _

@[simp] theorem committed_key (key : String) :
    r.committed key db (.idempotency key) = some r.binding :=
  Db.write_self ..

theorem committed_submission (key id : String) :
    r.committed key db (.submission id) = db.write r.row (.submission id) :=
  Db.write_ne _ _ (by simp)

end KeyedPut

/-! ## One statement of one transaction -/

section Steps

variable {key : String} {r w : KeyedPut} {db db' : SqlDb} {busy : RowKey → Bool}
  {t t' : PutSession} {k : RowKey}

namespace Pending

theorem isDone (h : Pending key r t) : t.isDone = false := by
  cases h <;> rfl

theorem holds (h : Pending key r t) (hk : t.holds k = true) : k = .submission r.sub.id := by
  cases h with
  | lookup | store => simp [Session.holds] at hk
  | bind => simpa [Session.holds] using hk

theorem target (h : Pending key r t) (hkey : key ≠ "") (hk : k ∈ t.target) :
    k = .submission r.sub.id ∨ k = .idempotency key := by
  cases h with
  | lookup =>
    obtain ⟨next, hprog, -⟩ := r.program_eq hkey
    rw [hprog] at hk
    cases hk
  | store => exact .inl (Option.some.inj hk).symm
  | bind => exact .inr (Option.some.inj hk).symm

/-- As long as the key is free, a transaction goes on to bind it. -/
theorem next (h : Pending key r t) (hkey : key ≠ "") (hfree : db (.idempotency key) = none)
    (hnext : t.next db busy = some (t', db')) :
    db' = db ∧ (Pending key r t' ∨ t' = r.winning key) := by
  cases h with
  | lookup =>
    obtain ⟨next, hprog, hnone, -⟩ := r.program_eq hkey
    rw [hprog] at hnext
    obtain ⟨-, hdb, rfl⟩ := Session.next_exec hnext
    simp only [Stmt.reply, Db.writeAll_nil, hfree, hnone]
    exact ⟨hdb, .inl .store⟩
  | store =>
    obtain ⟨-, hdb, rfl⟩ := Session.next_exec hnext
    rw [if_neg hkey]
    exact ⟨hdb, .inl .bind⟩
  | bind =>
    obtain ⟨-, hdb, rfl⟩ := Session.next_exec hnext
    simp only [Stmt.reply, Stmt.write, Stmt.taken, Db.writeAll_cons, Db.writeAll_nil,
      KeyedPut.write_row_key, hfree, Option.isNone_none, if_true]
    exact ⟨hdb, .inr rfl⟩

end Pending

theorem KeyedPut.winning_next (hnext : (r.winning key).next db busy = some (t', db')) :
    t' = .done (.ok (cloneJSON r.sub, true)) ∧ db' = r.committed key db := by
  cases hnext
  exact ⟨rfl, rfl⟩

namespace Losing

theorem holds (h : Losing key w r t) (hk : t.holds k = true) : k = .submission r.sub.id := by
  cases h with
  | pending h => exact h.holds hk
  | reread | drop => simpa [Session.holds] using hk
  | loadWinner _ hlocks | refused _ hlocks | answered _ _ hlocks =>
    exact hlocks k (of_decide_eq_true hk)
  | loadExisting => simp [Session.holds] at hk
  | finished => cases hk

theorem target (h : Losing key w r t) (hkey : key ≠ "") (hk : k ∈ t.target) :
    k = .submission r.sub.id ∨ k = .idempotency key := by
  cases h with
  | pending h => exact h.target hkey hk
  | drop => exact .inl (Option.some.inj hk).symm
  | reread | loadWinner | loadExisting | refused | answered | finished => cases hk

/-- After `w` won, a transaction changes nothing that is committed, and
goes on to its answer. -/
theorem next (h : Losing key w r t) (hkey : key ≠ "")
    (hbound : db (.idempotency key) = some w.binding)
    (hstored : db (.submission w.sub.id) = some (.of w.sub))
    (hnew : db (.submission r.sub.id) = none)
    (hnext : t.next db busy = some (t', db')) : db' = db ∧ Losing key w r t' := by
  cases h with
  | pending h =>
    cases h with
    | lookup =>
      obtain ⟨next, hprog, -, hsome⟩ := r.program_eq hkey
      rw [hprog] at hnext
      obtain ⟨-, hdb, rfl⟩ := Session.next_exec hnext
      simp only [Stmt.reply, Db.writeAll_nil, hbound, hsome, SQLStore.replay,
        KeyedPut.binding]
      refine ⟨hdb, ?_⟩
      split
      · rename_i hconflict
        exact .refused hconflict (by simp [Stmt.taken, Stmt.write])
      · rename_i hagree
        exact .loadExisting hagree
    | store =>
      obtain ⟨-, hdb, rfl⟩ := Session.next_exec hnext
      rw [if_neg hkey]
      exact ⟨hdb, .pending .bind⟩
    | bind =>
      -- the key was bound while the insert waited, or before
      obtain ⟨-, hdb, rfl⟩ := Session.next_exec hnext
      simp only [Stmt.reply, Stmt.write, Stmt.taken, Db.writeAll_cons, Db.writeAll_nil,
        KeyedPut.write_row_key, hbound, Option.isNone_some, Bool.false_eq_true, if_false]
      exact ⟨hdb, .reread⟩
  | reread =>
    obtain ⟨-, hdb, rfl⟩ := Session.next_exec hnext
    simp only [Stmt.reply, Db.writeAll_cons, Db.writeAll_nil, KeyedPut.write_row_key, hbound,
      KeyedPut.binding]
    refine ⟨hdb, ?_⟩
    split
    · rename_i hconflict
      exact .refused hconflict (by simp [Stmt.taken, Stmt.write])
    · rename_i hagree
      exact .drop hagree
  | drop hagree =>
    obtain ⟨-, hdb, rfl⟩ := Session.next_exec hnext
    simp only [Stmt.write, Stmt.taken, Db.writeAll_cons, Db.writeAll_nil,
      KeyedPut.write_row_self, Option.any_some, if_true]
    exact ⟨hdb, .loadWinner hagree (by simp)⟩
  | loadWinner hagree hlocks =>
    obtain ⟨-, hdb, rfl⟩ := Session.next_exec hnext
    simp only [Stmt.reply, Db.writeAll_cons, Db.writeAll_nil, r.write_row_dropped hnew,
      KeyedPut.binding, hstored]
    refine ⟨hdb, .answered hagree (.inr rfl) ?_⟩
    simpa [Stmt.taken, Stmt.write] using hlocks
  | loadExisting hagree =>
    obtain ⟨-, hdb, rfl⟩ := Session.next_exec hnext
    simp only [Stmt.reply, Db.writeAll_nil, KeyedPut.binding, hstored]
    exact ⟨hdb, .answered hagree (.inl rfl) (by simp [Stmt.taken, Stmt.write])⟩
  | refused hconflict hlocks =>
    cases hnext
    rw [← KeyedPut.answer_of_conflicts hconflict]
    exact ⟨rfl, .finished⟩
  | answered hagree hwrites hlocks =>
    cases hnext
    rw [← KeyedPut.answer_of_agree hagree]
    refine ⟨?_, .finished⟩
    rcases hwrites with rfl | rfl
    · rfl
    · exact r.write_row_dropped hnew
  | finished => cases hnext

end Losing

end Steps

/-! ## All of them -/

section Runs

variable {key : String} {db₀ : SqlDb} {reqs : List KeyedPut}

abbrev PutState := State RowKey RowType (Except SqlError (Submission × Bool))

/-- Nobody has committed yet. -/
structure OpenPhase (key : String) (db₀ : SqlDb) (reqs : List KeyedPut) (s : PutState) :
    Prop where
  db_eq : s.db = db₀
  sessions : ∀ (i : Nat) (t : PutSession), s.sessions[i]? = some t →
    ∃ r, reqs[i]? = some r ∧ (Pending key r t ∨ t = r.winning key)

/-- The request `w` at `i₀` has won. -/
structure WonPhase (key : String) (db₀ : SqlDb) (reqs : List KeyedPut) (i₀ : Nat)
    (w : KeyedPut) (s : PutState) : Prop where
  request : reqs[i₀]? = some w
  db_eq : s.db = w.committed key db₀
  winner : s.sessions[i₀]? = some (.done (.ok (cloneJSON w.sub, true)))
  sessions : ∀ (i : Nat) (t : PutSession), i ≠ i₀ → s.sessions[i]? = some t →
    ∃ r, reqs[i]? = some r ∧ Losing key w r t

structure PutInv (key : String) (db₀ : SqlDb) (reqs : List KeyedPut) (s : PutState) :
    Prop where
  exclusive : s.Exclusive
  length : s.sessions.length = reqs.length
  phase : OpenPhase key db₀ reqs s ∨ ∃ i₀ w, WonPhase key db₀ reqs i₀ w s

namespace FreshPuts

variable (h : FreshPuts key db₀ reqs) {i j : Nat} {r r' : KeyedPut}

include h

theorem id_inj (hi : reqs[i]? = some r) (hj : reqs[j]? = some r')
    (hid : r.sub.id = r'.sub.id) : i = j := by
  have hi' : (reqs.map (·.sub.id))[i]? = some r.sub.id := by rw [List.getElem?_map, hi]; rfl
  have hj' : (reqs.map (·.sub.id))[j]? = some r.sub.id := by
    rw [List.getElem?_map, hj, hid]
    rfl
  obtain ⟨hlt, -⟩ := List.getElem?_eq_some_iff.mp hi'
  exact (List.getElem?_inj hlt h.ids_nodup).mp (hi'.trans hj'.symm)

/-- A transaction that lost finds the winner's rows, and not its own. -/
theorem won_db {s : PutState} {i₀ : Nat} {w : KeyedPut}
    (hwon : WonPhase key db₀ reqs i₀ w s) (hi : i ≠ i₀) (hr : reqs[i]? = some r) :
    s.db (.idempotency key) = some w.binding ∧ s.db (.submission w.sub.id) = some (.of w.sub) ∧
      s.db (.submission r.sub.id) = none := by
  have hne : r.sub.id ≠ w.sub.id := by
    intro hid
    exact hi (h.id_inj hr hwon.request hid)
  rw [hwon.db_eq, w.committed_submission, w.committed_submission, w.write_row_ne _ hne]
  exact ⟨w.committed_key _ key, w.write_row_self _, h.ids_new r (List.mem_of_getElem? hr)⟩

end FreshPuts

/-- Before the first commit, a statement leads to another one before it,
or is the winner's commit. -/
theorem OpenPhase.step (hfresh : FreshPuts key db₀ reqs) {s s' : PutState} {i : Nat}
    (hex : s.Exclusive) (h : OpenPhase key db₀ reqs s) (hs : s.step i = some s') :
    OpenPhase key db₀ reqs s' ∨ ∃ i₀ w, WonPhase key db₀ reqs i₀ w s' := by
  obtain ⟨t, t', hget, hnext, hsessions⟩ := State.step_cases hs
  obtain ⟨r, hr, hpending | rfl⟩ := h.sessions i t hget
  · have hfree : s.db (.idempotency key) = none := by rw [h.db_eq, hfresh.key_free]
    obtain ⟨hdb, hnew⟩ := hpending.next hfresh.key_ne hfree hnext
    refine .inl ⟨hdb.trans h.db_eq, ?_⟩
    intro j u hu
    rw [hsessions] at hu
    rcases getElem?_set_cases hu with ⟨rfl, rfl⟩ | ⟨hj, hu'⟩
    · exact ⟨r, hr, hnew⟩
    · exact h.sessions j u hu'
  · obtain ⟨rfl, hdb⟩ := KeyedPut.winning_next hnext
    obtain ⟨hlt, -⟩ := List.getElem?_eq_some_iff.mp hget
    refine .inr ⟨i, r, hr, by rw [hdb, h.db_eq], ?_, ?_⟩
    · rw [hsessions, List.getElem?_set_self hlt]
    · intro j u hj hu
      rw [hsessions, List.getElem?_set_ne (Ne.symm hj)] at hu
      obtain ⟨r', hr', hpending | rfl⟩ := h.sessions j u hu
      · exact ⟨r', hr', .pending hpending⟩
      -- two transactions that have bound the key would both hold it
      · exact absurd (hex j i _ _ (.idempotency key) hu hget
          (by simp [KeyedPut.winning, Session.holds])
          (by simp [KeyedPut.winning, Session.holds])) hj

theorem WonPhase.step (hfresh : FreshPuts key db₀ reqs) {s s' : PutState} {i i₀ : Nat}
    {w : KeyedPut} (h : WonPhase key db₀ reqs i₀ w s) (hs : s.step i = some s') :
    WonPhase key db₀ reqs i₀ w s' := by
  obtain ⟨t, t', hget, hnext, hsessions⟩ := State.step_cases hs
  have hi : i ≠ i₀ := by
    rintro rfl
    rw [h.winner] at hget
    cases hget
    cases hnext
  obtain ⟨r, hr, hlosing⟩ := h.sessions i t hi hget
  obtain ⟨hbound, hstored, hnew⟩ := hfresh.won_db h hi hr
  obtain ⟨hdb, hlosing'⟩ := hlosing.next hfresh.key_ne hbound hstored hnew hnext
  refine ⟨h.request, hdb.trans h.db_eq, ?_, ?_⟩
  · rw [hsessions, List.getElem?_set_ne hi, h.winner]
  · intro j u hj hu
    rw [hsessions] at hu
    rcases getElem?_set_cases hu with ⟨rfl, rfl⟩ | ⟨-, hu'⟩
    · exact ⟨r, hr, hlosing'⟩
    · exact h.sessions j u hj hu'

theorem PutInv.step (hfresh : FreshPuts key db₀ reqs) {s s' : PutState} {i : Nat}
    (h : PutInv key db₀ reqs s) (hs : s.step i = some s') : PutInv key db₀ reqs s' := by
  refine ⟨h.exclusive.step hs, ?_, ?_⟩
  · obtain ⟨t, t', -, -, hsessions⟩ := State.step_cases hs
    rw [hsessions, List.length_set, h.length]
  · rcases h.phase with hopen | ⟨i₀, w, hwon⟩
    · exact hopen.step hfresh h.exclusive hs
    · exact .inr ⟨i₀, w, hwon.step hfresh hs⟩

theorem putInv_start : PutInv key db₀ reqs (start db₀ (reqs.map (·.program key))) := by
  refine ⟨exclusive_start db₀ _, by simp [start], .inl ⟨rfl, ?_⟩⟩
  intro i t ht
  simp only [start, List.map_map, List.getElem?_map] at ht
  obtain ⟨r, hr, rfl⟩ := Option.map_eq_some_iff.mp ht
  exact ⟨r, hr, .inl .lookup⟩

theorem putInv_reach (hfresh : FreshPuts key db₀ reqs) {s : PutState}
    (h : (concurrentPuts key db₀ reqs).Reach (fun _ _ => True) s) : PutInv key db₀ reqs s := by
  refine h.invariant ?_ ?_
  · rintro s rfl
    exact putInv_start
  · intro s i s' hinv _ hs
    exact hinv.step hfresh hs

/-! ## Nobody waits for ever -/

/-- A transaction that wants its own id or the key moves, if every other
one holds at most its own id. -/
theorem FreshPuts.exists_step (hfresh : FreshPuts key db₀ reqs) {s : PutState} {i : Nat}
    {t : PutSession} {r : KeyedPut} (hget : s.sessions[i]? = some t)
    (hr : reqs[i]? = some r) (hrunning : t.isDone = false)
    (htarget : ∀ k ∈ t.target, k = .submission r.sub.id ∨ k = .idempotency key)
    (hothers : ∀ j u k, j ≠ i → s.sessions[j]? = some u → u.holds k = true →
      ∃ r', reqs[j]? = some r' ∧ k = .submission r'.sub.id) :
    ∃ s', s.step i = some s' := by
  refine State.exists_step hget hrunning ?_
  intro k hk j u hj hu
  rw [Bool.eq_false_iff]
  intro huk
  obtain ⟨r', hr', rfl⟩ := hothers j u k hj hu huk
  rcases htarget _ hk with hid | hkey
  · exact hj (hfresh.id_inj hr' hr (RowKey.submission.inj hid))
  · cases hkey

theorem OpenPhase.exists_step (hfresh : FreshPuts key db₀ reqs) {s : PutState} {i : Nat}
    {t : PutSession} (h : OpenPhase key db₀ reqs s) (hget : s.sessions[i]? = some t) :
    ∃ i s', s.step i = some s' := by
  by_cases hwinning : ∃ (j : Nat) (r : KeyedPut), s.sessions[j]? = some (r.winning key)
  · -- the one that has the key commits
    obtain ⟨j, r, hj⟩ := hwinning
    refine ⟨j, State.exists_step hj rfl ?_⟩
    intro k hk
    cases hk
  · have hpending : ∀ (j : Nat) (u : PutSession), s.sessions[j]? = some u →
        ∃ r, reqs[j]? = some r ∧ Pending key r u := by
      intro j u hu
      obtain ⟨r, hr, hp | rfl⟩ := h.sessions j u hu
      · exact ⟨r, hr, hp⟩
      · exact absurd ⟨j, r, hu⟩ hwinning
    obtain ⟨r, hr, hp⟩ := hpending i t hget
    refine ⟨i, hfresh.exists_step hget hr hp.isDone (fun k hk => hp.target hfresh.key_ne hk) ?_⟩
    intro j u k _ hu huk
    obtain ⟨r', hr', hp'⟩ := hpending j u hu
    exact ⟨r', hr', hp'.holds huk⟩

theorem WonPhase.exists_step (hfresh : FreshPuts key db₀ reqs) {s : PutState} {i i₀ : Nat}
    {w : KeyedPut} {t : PutSession} (h : WonPhase key db₀ reqs i₀ w s)
    (hget : s.sessions[i]? = some t) (hrunning : t.isDone = false) :
    ∃ i s', s.step i = some s' := by
  have hi : i ≠ i₀ := by
    rintro rfl
    rw [h.winner] at hget
    cases hget
    cases hrunning
  obtain ⟨r, hr, hl⟩ := h.sessions i t hi hget
  refine ⟨i, hfresh.exists_step hget hr hrunning (fun k hk => hl.target hfresh.key_ne hk) ?_⟩
  intro j u k _ hu huk
  have hj : j ≠ i₀ := by
    rintro rfl
    rw [h.winner] at hu
    cases hu
    cases huk
  obtain ⟨r', hr', hl'⟩ := h.sessions j u hj hu
  exact ⟨r', hr', hl'.holds huk⟩

theorem PutInv.exists_step (hfresh : FreshPuts key db₀ reqs) {s : PutState}
    (h : PutInv key db₀ reqs s) (hrunning : ¬s.Finished) : ∃ i s', s.step i = some s' := by
  simp only [State.Finished, not_forall] at hrunning
  obtain ⟨t, ht, hdone⟩ := hrunning
  obtain ⟨i, hget⟩ := List.mem_iff_getElem?.mp ht
  rcases h.phase with hopen | ⟨i₀, w, hwon⟩
  · exact hopen.exists_step hfresh hget
  · exact hwon.exists_step hfresh hget (Bool.eq_false_iff.mpr hdone)

theorem lostRace_within (hash : String) (sub : Submission) :
    (SQLStore.lostRace key hash sub).Within 4 := by
  refine .exec ?_
  rintro (_ | row)
  · exact .rollback ..
  · show (if SQLStore.conflicts row.requestHash hash then SQLStore.failWith .idempotencyConflict
      else SQLStore.dropOrphan sub row).Within 3
    split
    · exact .rollback ..
    · refine .exec ?_
      intro _
      refine .exec ?_
      rintro (_ | body)
      · exact .rollback ..
      · exact .commit ..

theorem storeNew_within (hash : String) (sub : Submission) :
    (SQLStore.storeNew key hash sub).Within 6 := by
  refine .exec ?_
  intro _
  show (if key = "" then SQLStore.created sub else SQLStore.bindKey key hash sub).Within 5
  split
  · exact .commit ..
  · refine .exec ?_
    rintro (_ | _)
    · exact lostRace_within hash sub
    · exact .commit ..

theorem replay_within (hash : String) (row : IdempotencyRow) :
    (SQLStore.replay key hash row).Within 6 := by
  unfold SQLStore.replay
  split
  · exact .rollback ..
  · refine .exec ?_
    rintro (_ | body)
    · exact .rollback ..
    · exact .commit ..

/-- A lookup, two inserts, in the lost race a lookup, a delete and a
lookup, and the commit. -/
theorem program_within (hkey : key ≠ "") (r : KeyedPut) : (r.program key).Within 7 := by
  obtain ⟨next, hprog, hnone, hsome⟩ := r.program_eq hkey
  rw [hprog]
  refine .exec ?_
  rintro (_ | row)
  · rw [hnone]
    exact storeNew_within r.hash r.sub
  · rw [hsome]
    exact replay_within r.hash row

/-! ## The result -/

/-- The request `w` at `i₀` was created, every other call was answered with
it or refused, and the rows are those from before and the one of `w`. -/
structure OneCreated (db₀ : SqlDb) (reqs : List KeyedPut) (i₀ : Nat) (w : KeyedPut)
    (s : PutState) : Prop where
  request : reqs[i₀]? = some w
  creates : s.sessions[i₀]? = some (.done (.ok (cloneJSON w.sub, true)))
  others : ∀ (i : Nat) (r : KeyedPut), i ≠ i₀ → reqs[i]? = some r →
    s.sessions[i]? = some (.done (r.answer w))
  rows : ∀ id, s.db (.submission id) =
    if id = w.sub.id then some (.of w.sub) else db₀ (.submission id)

theorem Losing.finished_of_isDone {w r : KeyedPut} {t : PutSession}
    (h : Losing key w r t) (hdone : t.isDone = true) : t = .done (r.answer w) := by
  cases h with
  | finished => rfl
  | pending h =>
    rw [h.isDone] at hdone
    cases hdone
  | reread | drop | loadWinner | loadExisting | refused | answered => cases hdone

theorem WonPhase.oneCreated {s : PutState} {i₀ : Nat} {w : KeyedPut}
    (h : WonPhase key db₀ reqs i₀ w s) (hlen : s.sessions.length = reqs.length)
    (hfin : s.Finished) : OneCreated db₀ reqs i₀ w s := by
  refine ⟨h.request, h.winner, ?_, ?_⟩
  · intro i r hi hr
    obtain ⟨hlt, -⟩ := List.getElem?_eq_some_iff.mp hr
    have hget := List.getElem?_eq_getElem (hlen ▸ hlt)
    obtain ⟨r', hr', hl⟩ := h.sessions i _ hi hget
    obtain rfl : r = r' := Option.some.inj (hr.symm.trans hr')
    rw [hget, hl.finished_of_isDone (hfin _ (List.mem_of_getElem? hget))]
  · intro id
    rw [h.db_eq, w.committed_submission]
    split
    · rename_i hid
      rw [hid, w.write_row_self]
    · rename_i hid
      rw [w.write_row_ne db₀ hid]

/-- Somebody has committed, if there was anybody. -/
theorem OpenPhase.not_finished {s : PutState} (h : OpenPhase key db₀ reqs s)
    (hlen : s.sessions.length = reqs.length) (hne : reqs ≠ []) : ¬s.Finished := by
  intro hfin
  have hpos : 0 < s.sessions.length := by
    rw [hlen]
    exact List.length_pos_of_ne_nil hne
  have hget := List.getElem?_eq_getElem hpos
  have hdone := hfin _ (List.mem_of_getElem? hget)
  obtain ⟨r, -, hp | hw⟩ := h.sessions 0 _ hget
  · rw [hp.isDone] at hdone
    cases hdone
  · rw [hw] at hdone
    cases hdone

/-- **One creation.** However the statements of the calls interleave: all
calls can end from wherever they are, and when they have ended, exactly
one of them has created its submission. Every other one returned that
submission, or the conflict if the fingerprints differ, and no other new
row is left. -/
theorem one_creation (hfresh : FreshPuts key db₀ reqs) (hne : reqs ≠ []) {s : PutState}
    (h : (concurrentPuts key db₀ reqs).Reach (fun _ _ => True) s) :
    (s.Finished → ∃ i₀ w, OneCreated db₀ reqs i₀ w s) ∧
    ∃ s', Relation.ReflTransGen ((concurrentPuts key db₀ reqs).Next fun _ _ => True) s s' ∧
      s'.Finished := by
  have hinv := putInv_reach hfresh h
  constructor
  · intro hfin
    rcases hinv.phase with hopen | ⟨i₀, w, hwon⟩
    · exact absurd hfin (hopen.not_finished hinv.length hne)
    · exact ⟨i₀, w, hwon.oneCreated hinv.length hfin⟩
  · have hprogs : ∀ t ∈ reqs.map (·.program key), t.Within 7 := by
      intro t ht
      obtain ⟨r, -, rfl⟩ := List.mem_map.mp ht
      exact program_within hfresh.key_ne r
    exact exists_finished hprogs (fun s i s' hs hstep => hs.step hfresh hstep)
      (fun s hs hrunning => hs.exists_step hfresh hrunning) h hinv

end Runs

def putA : KeyedPut := ⟨"h", { id := "sub_a", status := .accepted }⟩

def putB : KeyedPut := ⟨"h", { id := "sub_b", status := .accepted }⟩

/-- Both look the key up before either has bound it; the second one waits,
loses, and drops its row. -/
theorem one_creation_lost_race :
    ∃ s, (concurrentPuts "k" (fun _ => none) [putA, putB]).Reach (fun _ _ => True) s ∧
      s.Finished ∧
      s.sessions.map Session.result =
        [some (.ok (putA.sub, true)), some (.ok (putA.sub, false))] ∧
      ∃ i₀ w, OneCreated (fun _ => none) [putA, putB] i₀ w s := by
  have hfresh : FreshPuts "k" (fun _ => none) [putA, putB] :=
    ⟨by decide, rfl, by decide, fun _ _ => rfl⟩
  have hrun : ((concurrentPuts "k" (fun _ => none) [putA, putB]).run (fun _ _ => True)
      [0, 1, 0, 1, 0, 0, 1, 1, 1, 1, 1] (start (fun _ => none)
        ([putA, putB].map (·.program "k")))).map (fun s =>
          (decide s.Finished, s.sessions.map Session.result)) =
      some (true, [some (.ok (putA.sub, true)), some (.ok (putA.sub, false))]) := by
    decide +kernel
  obtain ⟨s, hreach, heq⟩ := (Sys.Reach.init rfl).of_run_map hrun
  simp only [Prod.mk.injEq, decide_eq_true_eq] at heq
  obtain ⟨hfin, hresults⟩ := heq
  exact ⟨s, hreach, hfin, hresults, (one_creation hfresh (by simp) hreach).1 hfin⟩

/-- Without a key both calls create, and with a key that is bound already
none does. -/
theorem unguarded_keys :
    (∃ s, (concurrentPuts "" (fun _ => none) [putA, putB]).Reach (fun _ _ => True) s ∧
      s.Finished ∧ s.sessions.map Session.result =
        [some (.ok (putA.sub, true)), some (.ok (putB.sub, true))]) ∧
    ∃ s, (concurrentPuts "k" ((putA.program "k").run fun _ => none).2 [putB]).Reach
      (fun _ _ => True) s ∧
      s.Finished ∧ s.sessions.map Session.result = [some (.ok (putA.sub, false))] := by
  have hempty : ((concurrentPuts "" (fun _ => none) [putA, putB]).run (fun _ _ => True)
      [0, 1, 0, 1] (start (fun _ => none) ([putA, putB].map (·.program "")))).map (fun s =>
        (decide s.Finished, s.sessions.map Session.result)) =
      some (true, [some (.ok (putA.sub, true)), some (.ok (putB.sub, true))]) := by
    decide +kernel
  have hbound : ((concurrentPuts "k" ((putA.program "k").run fun _ => none).2 [putB]).run
      (fun _ _ => True) [0, 0, 0] (start ((putA.program "k").run fun _ => none).2
        ([putB].map (·.program "k")))).map (fun s =>
          (decide s.Finished, s.sessions.map Session.result)) =
      some (true, [some (.ok (putA.sub, false))]) := by
    decide +kernel
  obtain ⟨s, hreach, heq⟩ := (Sys.Reach.init rfl).of_run_map hempty
  obtain ⟨s', hreach', heq'⟩ := (Sys.Reach.init rfl).of_run_map hbound
  simp only [Prod.mk.injEq, decide_eq_true_eq] at heq heq'
  exact ⟨⟨s, hreach, heq⟩, ⟨s', hreach', heq'⟩⟩

end Scintx.Store
