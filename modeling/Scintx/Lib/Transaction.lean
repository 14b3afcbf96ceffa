/-
Scintx.Lib.Transaction — transactions, statement by statement.

A database has a row or none under every key; the keys of all tables are
one type, and the type of a row depends on its key. A transaction is a
TREE: a statement, and for every reply to it the transaction that
follows, down to a commit or a rollback.

`Tx.run` executes a transaction as a whole. `interleaving` executes many,
one statement of one of them at a time, under READ COMMITTED:

* a statement sees what is committed and what its own transaction wrote;
* a row that a transaction wrote, or selected for update, is locked until
  the transaction ends, and a statement that would write it waits;
* a statement that had to wait sees what the other one committed, so an
  insert that gives way affects no row exactly if the other one stayed.

A statement that waits is an action that is not enabled.
`exists_finished` is the rule for "every transaction ends": where nobody
waits for ever, transactions of bounded length all end.
-/
import Mathlib.Logic.Function.Basic
import Scintx.Lib.Transition

namespace Scintx.Lib.Transaction

/-! ## Databases and statements -/

/-- A row or none under every key. -/
abbrev Db (K : Type) (Row : K → Type) := (k : K) → Option (Row k)

/-- A row and its key, or the removal of the row of a key. -/
abbrev Write (K : Type) (Row : K → Type) := (k : K) × Option (Row k)

inductive Stmt (K : Type) (Row : K → Type) where
  | select (k : K)
  /-- `SELECT … FOR UPDATE`. -/
  | selectForUpdate (k : K)
  /-- `INSERT … ON CONFLICT DO NOTHING`. -/
  | insertIgnore (k : K) (v : Row k)
  /-- `INSERT … ON CONFLICT DO UPDATE`. -/
  | upsert (k : K) (v : Row k)
  | update (k : K) (v : Row k)
  /-- `DELETE` of the row of a key that meets a condition. -/
  | deleteIf (k : K) (cond : Row k → Bool)

/-- The row that was selected, or whether a row was affected. -/
abbrev Stmt.Reply {K : Type} {Row : K → Type} : Stmt K Row → Type
  | .select k | .selectForUpdate k => Option (Row k)
  | .insertIgnore .. | .upsert .. | .update .. | .deleteIf .. => Bool

/-- A transaction with results in `α`. -/
inductive Tx (K : Type) (Row : K → Type) (α : Type) where
  | commit (a : α)
  | rollback (a : α)
  | exec (q : Stmt K Row) (next : q.Reply → Tx K Row α)

section

variable {K : Type} [DecidableEq K] {Row : K → Type} {α : Type}

def Db.write (db : Db K Row) (w : Write K Row) : Db K Row := Function.update db w.1 w.2

def Db.writeAll (db : Db K Row) (ws : List (Write K Row)) : Db K Row := ws.foldl Db.write db

namespace Stmt

def reply (db : Db K Row) : (q : Stmt K Row) → q.Reply
  | .select k | .selectForUpdate k => db k
  | .insertIgnore k _ => (db k).isNone
  | .upsert .. => true
  | .update k _ => (db k).isSome
  | .deleteIf k cond => (db k).any cond

/-- What is written, if anything. -/
def write (db : Db K Row) : Stmt K Row → Option (Write K Row)
  | .select _ | .selectForUpdate _ => none
  | .insertIgnore k v => if (db k).isNone then some ⟨k, some v⟩ else none
  | .upsert k v => some ⟨k, some v⟩
  | .update k v => if (db k).isSome then some ⟨k, some v⟩ else none
  | .deleteIf k cond => if (db k).any cond then some ⟨k, none⟩ else none

/-- The key that must not be locked by another transaction. -/
def target : Stmt K Row → Option K
  | .select _ => none
  | .selectForUpdate k | .insertIgnore k _ | .upsert k _ | .update k _ | .deleteIf k _ => some k

/-- The locks that are taken. -/
def taken (db : Db K Row) : Stmt K Row → List K
  | .selectForUpdate k => if (db k).isSome then [k] else []
  | q => (q.write db).toList.map (·.1)

end Stmt

/-! ## One transaction alone -/

/-- From a database to work on; `db₀` is what a rollback goes back to. -/
def Tx.runFrom (db₀ : Db K Row) : Tx K Row α → Db K Row → α × Db K Row
  | .commit a, db => (a, db)
  | .rollback a, _ => (a, db₀)
  | .exec q next, db => (next (q.reply db)).runFrom db₀ (db.writeAll (q.write db).toList)

def Tx.run (t : Tx K Row α) (db : Db K Row) : α × Db K Row := t.runFrom db db

/-! ## Many transactions -/

/-- A transaction under way, with what it wrote and the keys it has
locked, or its result. -/
inductive Session (K : Type) (Row : K → Type) (α : Type) where
  | running (prog : Tx K Row α) (writes : List (Write K Row)) (locks : List K)
  | done (a : α)

namespace Session

def holds (k : K) : Session K Row α → Bool
  | .running _ _ locks => k ∈ locks
  | .done _ => false

def isDone : Session K Row α → Bool
  | .running .. => false
  | .done _ => true

def result : Session K Row α → Option α
  | .running .. => none
  | .done a => some a

/-- The next statement, on a committed database and with the keys that
others have locked. -/
def next (db : Db K Row) (busy : K → Bool) :
    Session K Row α → Option (Session K Row α × Db K Row)
  | .running (.commit a) writes _ => some (.done a, db.writeAll writes)
  | .running (.rollback a) _ _ => some (.done a, db)
  | .running (.exec q next) writes locks =>
    if q.target.any busy then none
    else
      let view := db.writeAll writes
      some (.running (next (q.reply view)) (writes ++ (q.write view).toList)
        (locks ++ q.taken view), db)
  | .done _ => none

end Session

structure State (K : Type) (Row : K → Type) (α : Type) where
  /-- What is committed. -/
  db : Db K Row
  sessions : List (Session K Row α)

namespace State

/-- Has another transaction locked the key? -/
def busy (s : State K Row α) (i : Nat) (k : K) : Bool :=
  (s.sessions.eraseIdx i).any (·.holds k)

def step (i : Nat) (s : State K Row α) : Option (State K Row α) :=
  match s.sessions[i]? with
  | none => none
  | some t =>
    (t.next s.db (s.busy i)).map fun (t', db') => { db := db', sessions := s.sessions.set i t' }

def Finished (s : State K Row α) : Prop := ∀ t ∈ s.sessions, t.isDone = true

instance (s : State K Row α) : Decidable s.Finished :=
  inferInstanceAs (Decidable (∀ t ∈ s.sessions, _))

end State

/-- The transactions, each at its start. -/
def start (db : Db K Row) (progs : List (Tx K Row α)) : State K Row α where
  db := db
  sessions := progs.map fun t => .running t [] []

/-- Every interleaving: an action names the transaction that moves. -/
def interleaving (db : Db K Row) (progs : List (Tx K Row α)) : Sys (State K Row α) Nat where
  init s := s = start db progs
  step := State.step

/-! ## Rules -/

@[simp] theorem Db.writeAll_nil (db : Db K Row) : db.writeAll [] = db := rfl

@[simp] theorem Db.writeAll_cons (db : Db K Row) (w : Write K Row) (ws : List (Write K Row)) :
    db.writeAll (w :: ws) = (db.write w).writeAll ws := rfl

@[simp] theorem Db.write_self (db : Db K Row) (k : K) (v : Option (Row k)) :
    db.write ⟨k, v⟩ k = v := by
  unfold Db.write
  exact Function.update_self ..

theorem Db.write_ne (db : Db K Row) {k k' : K} (v : Option (Row k)) (h : k' ≠ k) :
    db.write ⟨k, v⟩ k' = db k' := by
  unfold Db.write
  exact Function.update_of_ne h ..

section Delete

variable (db : Db K Row) {k : K} (cond : Row k → Bool)

theorem Db.delete_self :
    db.writeAll ((Stmt.deleteIf k cond).write db).toList k =
      if (db k).any cond then none else db k := by
  simp only [Stmt.write]
  split
  · exact db.write_self k none
  · rfl

theorem Db.delete_ne {k' : K} (h : k' ≠ k) :
    db.writeAll ((Stmt.deleteIf k cond).write db).toList k' = db k' := by
  simp only [Stmt.write]
  split
  · exact db.write_ne none h
  · rfl

end Delete

/-- A row that was not there is written and removed. -/
theorem Db.write_removed {db : Db K Row} {k : K} (h : db k = none) (v : Option (Row k)) :
    (db.write ⟨k, v⟩).write ⟨k, none⟩ = db := by
  unfold Db.write
  rw [Function.update_idem, ← h, Function.update_eq_self]

omit [DecidableEq K] in
/-- What a statement locks is what it would have waited for. -/
theorem Stmt.mem_taken {db : Db K Row} {q : Stmt K Row} {k : K} (h : k ∈ q.taken db) :
    q.target = some k := by
  cases q with
  | select k' => cases h
  | selectForUpdate k' =>
    simp only [Stmt.taken] at h
    split at h
    · rw [List.mem_singleton.mp h]
      rfl
    · cases h
  | upsert k' v =>
    rw [List.mem_singleton.mp h]
    rfl
  | insertIgnore k' v | update k' v | deleteIf k' cond =>
    simp only [Stmt.taken, Stmt.write] at h
    split at h
    · rw [List.mem_singleton.mp h]
      rfl
    · cases h

theorem State.busy_iff {s : State K Row α} {i : Nat} {k : K} :
    s.busy i k = true ↔ ∃ j, j ≠ i ∧ ∃ t, s.sessions[j]? = some t ∧ t.holds k = true := by
  rw [State.busy, List.any_eq_true]
  constructor
  · rintro ⟨t, hmem, hholds⟩
    obtain ⟨j, hj, hget⟩ := List.mem_eraseIdx_iff_getElem?.mp hmem
    exact ⟨j, hj, t, hget, hholds⟩
  · rintro ⟨j, hj, t, hget, hholds⟩
    exact ⟨t, List.mem_eraseIdx_iff_getElem?.mpr ⟨j, hj, hget⟩, hholds⟩

/-- What a step does: one session moves. -/
theorem State.step_cases {i : Nat} {s s' : State K Row α} (h : s.step i = some s') :
    ∃ t t', s.sessions[i]? = some t ∧ t.next s.db (s.busy i) = some (t', s'.db) ∧
      s'.sessions = s.sessions.set i t' := by
  unfold State.step at h
  split at h
  · cases h
  · rename_i t hget
    obtain ⟨⟨t', db'⟩, hnext, rfl⟩ := Option.map_eq_some_iff.mp h
    exact ⟨t, t', hget, hnext, rfl⟩

/-- What a statement does: nobody holds what it wants, and the session
goes on with the reply. -/
theorem Session.next_exec {q : Stmt K Row} {next : q.Reply → Tx K Row α}
    {writes : List (Write K Row)} {locks : List K} {t' : Session K Row α} {db db' : Db K Row}
    {busy : K → Bool}
    (h : (Session.running (.exec q next) writes locks).next db busy = some (t', db')) :
    (∀ k ∈ q.target, busy k = false) ∧ db' = db ∧
      t' = .running (next (q.reply (db.writeAll writes)))
        (writes ++ (q.write (db.writeAll writes)).toList)
        (locks ++ q.taken (db.writeAll writes)) := by
  simp only [Session.next] at h
  split at h
  · cases h
  · rename_i hbusy
    cases h
    rw [Bool.not_eq_true, Option.any_eq_false] at hbusy
    exact ⟨fun k hk => by simpa using hbusy k hk, rfl, rfl⟩

/-! ## Locks -/

/-- A key that a session holds after a statement, it held before or nobody
else did. -/
theorem Session.holds_next {t t' : Session K Row α} {db db' : Db K Row} {busy : K → Bool} {k : K}
    (h : t.next db busy = some (t', db')) (hk : t'.holds k = true) :
    t.holds k = true ∨ busy k = false := by
  cases t with
  | done a => cases h
  | running prog writes locks =>
    cases prog with
    | commit a =>
      cases h
      cases hk
    | rollback a =>
      cases h
      cases hk
    | exec q next =>
      obtain ⟨hfree, -, rfl⟩ := Session.next_exec h
      simp only [Session.holds, decide_eq_true_eq, List.mem_append] at hk ⊢
      refine hk.imp_right ?_
      intro htaken
      exact hfree k (Stmt.mem_taken htaken)

/-- A key is locked by one transaction at a time. -/
def State.Exclusive (s : State K Row α) : Prop :=
  ∀ (i j : Nat) (t u : Session K Row α) (k : K), s.sessions[i]? = some t →
    s.sessions[j]? = some u → t.holds k = true → u.holds k = true → i = j

theorem State.Exclusive.step {s s' : State K Row α} {i : Nat} (h : s.Exclusive)
    (hs : s.step i = some s') : s'.Exclusive := by
  obtain ⟨t, t', hget, hnext, hsessions⟩ := State.step_cases hs
  -- what the one that moved holds, no other one does
  have hmoved : ∀ j u k, j ≠ i → s.sessions[j]? = some u → t'.holds k = true →
      u.holds k = true → False := by
    intro j u k hj hu ht' huk
    rcases Session.holds_next hnext ht' with htk | hfree
    · exact hj (h j i u t k hu hget huk htk)
    · rw [State.busy_iff.mpr ⟨j, hj, u, hu, huk⟩] at hfree
      cases hfree
  intro a b u v k hu hv huk hvk
  rw [hsessions] at hu hv
  rcases getElem?_set_cases hu with ⟨rfl, rfl⟩ | ⟨ha, hu'⟩
  · rcases getElem?_set_cases hv with ⟨rfl, -⟩ | ⟨hb, hv'⟩
    · rfl
    · exact (hmoved b v k hb hv' huk hvk).elim
  · rcases getElem?_set_cases hv with ⟨rfl, rfl⟩ | ⟨hb, hv'⟩
    · exact (hmoved a u k ha hu' hvk huk).elim
    · exact h a b u v k hu' hv' huk hvk

theorem exclusive_start (db : Db K Row) (progs : List (Tx K Row α)) :
    (start db progs).Exclusive := by
  intro i j t u k ht _ htk
  obtain ⟨prog, -, rfl⟩ := List.mem_map.mp (List.mem_of_getElem? ht)
  simp [Session.holds] at htk

/-- The key that the next statement would lock. -/
def Session.target : Session K Row α → Option K
  | .running (.exec q _) _ _ => q.target
  | _ => none

/-- A transaction moves if no other one holds the key it wants. -/
theorem State.exists_step {s : State K Row α} {i : Nat} {t : Session K Row α}
    (hget : s.sessions[i]? = some t) (hrunning : t.isDone = false)
    (hfree : ∀ k ∈ t.target, ∀ j u, j ≠ i → s.sessions[j]? = some u → u.holds k = false) :
    ∃ s', s.step i = some s' := by
  have hbusy : ∀ k ∈ t.target, s.busy i k = false := by
    intro k hk
    rw [Bool.eq_false_iff, Ne, State.busy_iff]
    rintro ⟨j, hj, u, hu, huk⟩
    rw [hfree k hk j u hj hu] at huk
    cases huk
  simp only [State.step, hget]
  cases t with
  | done a => cases hrunning
  | running prog writes locks =>
    cases prog with
    | commit a => exact ⟨_, rfl⟩
    | rollback a => exact ⟨_, rfl⟩
    | exec q next =>
      have hnone : q.target.any (s.busy i) = false := by
        rw [Option.any_eq_false]
        intro k hk
        simpa using hbusy k hk
      simp only [Session.next, hnone, Bool.false_eq_true, if_false, Option.map_some]
      exact ⟨_, rfl⟩

end

/-! ## Transactions of bounded length -/

section

variable {K : Type} {Row : K → Type} {α : Type}

/-- At most `n` steps to the end, whatever the replies. -/
inductive Tx.Within : Nat → Tx K Row α → Prop
  | commit (n : Nat) (a : α) : Within (n + 1) (.commit a)
  | rollback (n : Nat) (a : α) : Within (n + 1) (.rollback a)
  | exec {n : Nat} {q : Stmt K Row} {next : q.Reply → Tx K Row α}
      (h : ∀ r, Within n (next r)) : Within (n + 1) (.exec q next)

def Session.Within (n : Nat) : Session K Row α → Prop
  | .running prog _ _ => prog.Within n
  | .done _ => True

/-- A bound for all sessions together. -/
inductive AllWithin : List (Session K Row α) → Nat → Prop
  | nil : AllWithin [] 0
  | cons {t : Session K Row α} {ts : List (Session K Row α)} {n m : Nat} (h : t.Within n)
      (hs : AllWithin ts m) : AllWithin (t :: ts) (n + m)

theorem AllWithin.of_forall {n : Nat} {ts : List (Session K Row α)}
    (h : ∀ t ∈ ts, t.Within n) : AllWithin ts (ts.length * n) := by
  induction ts with
  | nil =>
    rw [List.length_nil, Nat.zero_mul]
    exact .nil
  | cons t ts ih =>
    rw [List.length_cons, Nat.succ_mul, Nat.add_comm]
    exact .cons (h t List.mem_cons_self) (ih fun u hu => h u (List.mem_cons_of_mem _ hu))

/-- A step of one session lowers the bound. -/
theorem AllWithin.set {ts : List (Session K Row α)} {N i : Nat} {t : Session K Row α}
    (h : AllWithin ts N) (hget : ts[i]? = some t) :
    ∃ n, t.Within n ∧ ∀ t' m, m < n → t'.Within m → ∃ N' < N, AllWithin (ts.set i t') N' := by
  induction h generalizing i with
  | nil => cases hget
  | @cons u us n m hu hus ih =>
    cases i with
    | zero =>
      cases hget
      refine ⟨n, hu, ?_⟩
      intro t' k hk ht'
      exact ⟨k + m, by omega, .cons ht' hus⟩
    | succ i =>
      obtain ⟨k, hk, hset⟩ := ih hget
      refine ⟨k, hk, ?_⟩
      intro t' l hl ht'
      obtain ⟨M, hM, hall⟩ := hset t' l hl ht'
      exact ⟨n + M, by omega, .cons hu hall⟩

end

section

variable {K : Type} [DecidableEq K] {Row : K → Type} {α : Type}

theorem Session.Within.next {n : Nat} {t t' : Session K Row α} {db db' : Db K Row}
    {busy : K → Bool} (h : t.Within n) (hnext : t.next db busy = some (t', db')) :
    ∃ m < n, t'.Within m := by
  cases t with
  | done a => cases hnext
  | running prog writes locks =>
    cases h with
    | commit n a =>
      cases hnext
      exact ⟨n, Nat.lt_succ_self n, trivial⟩
    | rollback n a =>
      cases hnext
      exact ⟨n, Nat.lt_succ_self n, trivial⟩
    | @exec n q next h =>
      obtain ⟨-, -, rfl⟩ := Session.next_exec hnext
      exact ⟨n, Nat.lt_succ_self n, h _⟩

theorem AllWithin.step {s s' : State K Row α} {i N : Nat} (h : AllWithin s.sessions N)
    (hs : s.step i = some s') : ∃ N' < N, AllWithin s'.sessions N' := by
  obtain ⟨t, t', hget, hnext, hsessions⟩ := State.step_cases hs
  obtain ⟨n, hn, hset⟩ := h.set hget
  obtain ⟨m, hm, ht'⟩ := hn.next hnext
  rw [hsessions]
  exact hset t' m hm ht'

section Finished

variable {db : Db K Row} {progs : List (Tx K Row α)} {s : State K Row α}

theorem allWithin_reach {n : Nat} (hprogs : ∀ t ∈ progs, t.Within n)
    (h : (interleaving db progs).Reach (fun _ _ => True) s) : ∃ N, AllWithin s.sessions N := by
  refine @Sys.Reach.invariant _ _ _ _ (fun s => ∃ N, AllWithin s.sessions N) s h ?_ ?_
  · rintro s rfl
    have hall : ∀ t ∈ (start db progs).sessions, t.Within n := by
      intro t ht
      obtain ⟨prog, hprog, rfl⟩ := List.mem_map.mp ht
      exact hprogs prog hprog
    exact ⟨_, .of_forall hall⟩
  · rintro s i s' ⟨N, hN⟩ - hs
    obtain ⟨N', -, hN'⟩ := hN.step hs
    exact ⟨N', hN'⟩

/-- **All transactions end**, if they are of bounded length and there is an
invariant under which somebody can always move. -/
theorem exists_finished {n : Nat} {I : State K Row α → Prop} (hprogs : ∀ t ∈ progs, t.Within n)
    (hstep : ∀ s i s', I s → s.step i = some s' → I s')
    (hmove : ∀ s, I s → ¬s.Finished → ∃ i s', s.step i = some s')
    (h : (interleaving db progs).Reach (fun _ _ => True) s) (hI : I s) :
    ∃ s', Relation.ReflTransGen ((interleaving db progs).Next fun _ _ => True) s s' ∧
      s'.Finished := by
  obtain ⟨N, hN⟩ := allWithin_reach hprogs h
  clear h
  induction N using Nat.strong_induction_on generalizing s with
  | _ N ih =>
    by_cases hfin : s.Finished
    · exact ⟨s, .refl, hfin⟩
    · obtain ⟨i, s', hs'⟩ := hmove s hI hfin
      obtain ⟨N', hN', hall⟩ := hN.step hs'
      obtain ⟨s'', hrun, hfin'⟩ := ih N' hN' (hstep s i s' hI hs') hall
      exact ⟨s'', .head ⟨i, trivial, hs'⟩ hrun, hfin'⟩

end Finished

end

end Scintx.Lib.Transaction
