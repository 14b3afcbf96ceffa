/-
Scintx.Lib.Transition — systems given by a step function, the states
their runs reach, and systems of threads over a shared state.

A `Sys` steps by named actions: `step a s` is `none` when action `a` is
not enabled in `s`. Everything a scheduler, a client or a clock may do
is in the action, so a run is a list of actions and is evaluated, and a
statement over every interleaving is a statement over every list.

`Reach ok` is reachability by steps that all meet `ok`, a condition on
the state BEFORE the step and the action taken. With `ok` trivial it is
plain reachability; the guarded form is what a property needs that
holds only as long as some branch is not taken.

The second part is about a list of threads of which one moves at a
time. `weigh w ts` adds a weight over the threads; `weigh_set` is how
the sum changes when one of them moves, which is all that a
conservation argument (a semaphore, an ownership token) uses. `Shared`
is an assertion for every thread about the state they share: it stands
as long as the step of one thread disturbs the assertion of no other.
-/
import Mathlib.Logic.Relation
import Mathlib.Algebra.BigOperators.Group.List.Basic
import Mathlib.Algebra.GroupWithZero.Nat
import Mathlib.Algebra.Order.Group.Nat
import Mathlib.Algebra.Order.BigOperators.Group.List

namespace Scintx.Lib

/-! ## Runs -/

/-- A system: its initial states, and its steps by named actions. -/
structure Sys (σ α : Type) where
  init : σ → Prop
  step : α → σ → Option σ

namespace Sys

variable {σ α : Type} (S : Sys σ α)

/-- One step by an action that meets `ok`. -/
def Next (ok : σ → α → Prop) (s s' : σ) : Prop :=
  ∃ a, ok s a ∧ S.step a s = some s'

/-- The states reached from an initial one by steps that all meet `ok`. -/
def Reach (ok : σ → α → Prop) (s : σ) : Prop :=
  ∃ s₀, S.init s₀ ∧ Relation.ReflTransGen (S.Next ok) s₀ s

/-- The run along a list of actions that all meet `ok`. -/
def run (ok : σ → α → Prop) [∀ s a, Decidable (ok s a)] : List α → σ → Option σ
  | [], s => some s
  | a :: rest, s => if ok s a then (S.step a s).bind (run ok rest) else none

variable {S} {ok : σ → α → Prop}

theorem Reach.init {s : σ} (h : S.init s) : S.Reach ok s :=
  ⟨s, h, .refl⟩

theorem Reach.step {s s' : σ} (h : S.Reach ok s) (a : α) (hok : ok s a)
    (hs : S.step a s = some s') : S.Reach ok s' := by
  obtain ⟨s₀, h0, hr⟩ := h
  exact ⟨s₀, h0, hr.tail ⟨a, hok, hs⟩⟩

theorem Reach.mono {ok' : σ → α → Prop} {s : σ} (h : S.Reach ok s)
    (hok : ∀ s a, ok s a → ok' s a) : S.Reach ok' s := by
  obtain ⟨s₀, h0, hr⟩ := h
  refine ⟨s₀, h0, Relation.ReflTransGen.mono ?_ s₀ s hr⟩
  rintro a b ⟨act, hact, hstep⟩
  exact ⟨act, hok a act hact, hstep⟩

/-- **The invariant rule**: what holds initially and is kept by every
step that meets `ok` holds of every state reached. -/
theorem Reach.invariant {I : σ → Prop} {s : σ} (h : S.Reach ok s) (h0 : ∀ s, S.init s → I s)
    (hs : ∀ s a s', I s → ok s a → S.step a s = some s' → I s') : I s := by
  obtain ⟨s₀, hi, hr⟩ := h
  induction hr with
  | refl => exact h0 s₀ hi
  | tail _ hn ih =>
    obtain ⟨a, hok, hst⟩ := hn
    exact hs _ a _ ih hok hst

/-- A run that evaluates reaches the state it ends in. -/
theorem Reach.of_run [∀ s a, Decidable (ok s a)] {acts : List α} {s s' : σ} (h : S.Reach ok s)
    (hr : S.run ok acts s = some s') : S.Reach ok s' := by
  induction acts generalizing s with
  | nil =>
    simp only [run, Option.some.injEq] at hr
    exact hr ▸ h
  | cons a rest ih =>
    simp only [run] at hr
    split at hr
    · rename_i hok
      obtain ⟨s₁, h1, h2⟩ := Option.bind_eq_some_iff.mp hr
      exact ih (h.step a hok h1) h2
    · cases hr

/-- The state at the end of a run, seen through `f`. -/
theorem Reach.of_run_map [∀ s a, Decidable (ok s a)] {β : Type} {f : σ → β} {v : β}
    {acts : List α} {s : σ} (h : S.Reach ok s) (hr : (S.run ok acts s).map f = some v) :
    ∃ s', S.Reach ok s' ∧ f s' = v := by
  obtain ⟨s', hs', hv⟩ := Option.map_eq_some_iff.mp hr
  exact ⟨s', h.of_run hs', hv⟩

/-- The steps of a run that evaluates. -/
theorem later_of_run [∀ s a, Decidable (ok s a)] {acts : List α} {s s' : σ}
    (hr : S.run ok acts s = some s') : Relation.ReflTransGen (S.Next ok) s s' := by
  induction acts generalizing s with
  | nil => exact Option.some.inj hr ▸ .refl
  | cons a rest ih =>
    simp only [run] at hr
    split at hr
    · rename_i hok
      obtain ⟨s₁, h1, h2⟩ := Option.bind_eq_some_iff.mp hr
      exact .head ⟨a, hok, h1⟩ (ih h2)
    · cases hr

/-- A run whose steps meet a condition meets every weaker one. -/
theorem run_mono {ok' : σ → α → Prop} [∀ s a, Decidable (ok s a)] [∀ s a, Decidable (ok' s a)]
    (hok : ∀ s a, ok s a → ok' s a) {acts : List α} {s s' : σ}
    (h : S.run ok acts s = some s') : S.run ok' acts s = some s' := by
  induction acts generalizing s with
  | nil => exact h
  | cons a rest ih =>
    simp only [run] at h ⊢
    split at h
    · rename_i ha
      rw [if_pos (hok s a ha)]
      obtain ⟨s₁, h1, h2⟩ := Option.bind_eq_some_iff.mp h
      rw [h1]
      exact ih h2
    · cases h

end Sys

/-! ## Threads -/

/-- The sum of a weight over a list of threads. -/
def weigh {θ : Type} (w : θ → Nat) (ts : List θ) : Nat := (ts.map w).sum

section Weigh

variable {θ : Type} (w : θ → Nat)

@[simp] theorem weigh_nil : weigh w [] = 0 := rfl

@[simp] theorem weigh_cons (t : θ) (ts : List θ) :
    weigh w (t :: ts) = w t + weigh w ts := by
  simp [weigh]

@[simp] theorem weigh_append (ts us : List θ) :
    weigh w (ts ++ us) = weigh w ts + weigh w us := by
  simp [weigh]

theorem weigh_map {θ' : Type} (f : θ' → θ) (ts : List θ') :
    weigh w (ts.map f) = weigh (fun t => w (f t)) ts := by
  rw [weigh, weigh, List.map_map]
  rfl

/-- **How a sum changes when one thread moves** from `t` to `t'`. -/
theorem weigh_set {ts : List θ} {i : Nat} {t : θ} (h : ts[i]? = some t) (t' : θ) :
    weigh w (ts.set i t') + w t = weigh w ts + w t' := by
  induction ts generalizing i with
  | nil => simp at h
  | cons u us ih =>
    cases i with
    | zero =>
      simp only [List.getElem?_cons_zero, Option.some.injEq] at h
      subst h
      simp only [List.set_cons_zero, weigh_cons]
      omega
    | succ i =>
      simp only [List.getElem?_cons_succ] at h
      have := ih h
      simp only [List.set_cons_succ, weigh_cons]
      omega

/-- One thread weighs at most what all of them do. -/
theorem le_weigh {ts : List θ} {t : θ} (h : t ∈ ts) : w t ≤ weigh w ts := by
  induction ts with
  | nil => simp at h
  | cons u us ih =>
    rcases List.mem_cons.mp h with rfl | h
    · simp
    · have := ih h
      simp only [weigh_cons]
      omega

theorem weigh_le_weigh {v : θ → Nat} {ts : List θ} (h : ∀ t ∈ ts, w t ≤ v t) :
    weigh w ts ≤ weigh v ts :=
  List.sum_le_sum h

/-- A weight of one a thread counts the threads. -/
theorem weigh_toNat (p : θ → Bool) (ts : List θ) :
    weigh (fun t => (p t).toNat) ts = ts.countP p := by
  induction ts with
  | nil => rfl
  | cons t ts ih =>
    rw [weigh_cons, ih, List.countP_cons, Nat.add_comm]
    cases p t <;> rfl

theorem weigh_eq_zero {ts : List θ} (h : ∀ t ∈ ts, w t = 0) : weigh w ts = 0 := by
  induction ts with
  | nil => rfl
  | cons u us ih =>
    rw [weigh_cons, h u (by simp), ih (fun t ht => h t (by simp [ht]))]

end Weigh

/-- How often a value occurs in what the threads list, when one of them
moves from `t` to `t'`. -/
theorem count_flatMap_set {θ α : Type} [DecidableEq α] (f : θ → List α) (v : α) {ts : List θ}
    {i : Nat} {t : θ} (h : ts[i]? = some t) (t' : θ) :
    ((ts.set i t').flatMap f).count v + (f t).count v =
      (ts.flatMap f).count v + (f t').count v := by
  rw [List.count_flatMap, List.count_flatMap]
  exact weigh_set (fun t => (f t).count v) h t'

/-- Two threads weigh at most what all of them do. -/
theorem add_le_weigh {θ : Type} (w : θ → Nat) {ts : List θ} {i j : Nat} {t u : θ}
    (hi : ts[i]? = some t) (hj : ts[j]? = some u) (hne : i ≠ j) : w t + w u ≤ weigh w ts := by
  induction ts generalizing i j with
  | nil => simp at hi
  | cons v vs ih =>
    rw [weigh_cons]
    cases i with
    | zero =>
      cases j with
      | zero => exact absurd rfl hne
      | succ j =>
        have := le_weigh w (List.mem_of_getElem? (by simpa using hj))
        obtain rfl : v = t := by simpa using hi
        omega
    | succ i =>
      cases j with
      | zero =>
        have := le_weigh w (List.mem_of_getElem? (by simpa using hi))
        obtain rfl : v = u := by simpa using hj
        omega
      | succ j =>
        have := ih (by simpa using hi) (by simpa using hj) (by omega)
        omega

/-- The threads after one moved: the moved one, or another one that did
not. -/
theorem getElem?_set_cases {θ : Type} {ts : List θ} {i j : Nat} {t' u : θ}
    (h : (ts.set i t')[j]? = some u) : (j = i ∧ u = t') ∨ (j ≠ i ∧ ts[j]? = some u) := by
  by_cases hj : j = i
  · subst hj
    rw [List.getElem?_set_self'] at h
    obtain ⟨v, -, rfl⟩ := Option.map_eq_some_iff.mp h
    exact .inl ⟨rfl, rfl⟩
  · rw [List.getElem?_set_ne (Ne.symm hj)] at h
    exact .inr ⟨hj, h⟩

/-- A thread of the list before one moved is the moved one or still there. -/
theorem mem_set_of_mem {θ : Type} {ts : List θ} {i : Nat} {t u : θ} (hi : ts[i]? = some t)
    (hu : u ∈ ts) (t' : θ) : u = t ∨ u ∈ ts.set i t' := by
  obtain ⟨j, hj⟩ := List.mem_iff_getElem?.mp hu
  by_cases hne : j = i
  · left
    rw [hne, hi] at hj
    exact (Option.some.inj hj).symm
  · right
    rw [← List.getElem?_set_ne (Ne.symm hne) (a := t')] at hj
    exact List.mem_of_getElem? hj

/-- The threads after one was added. -/
theorem getElem?_append_singleton {θ : Type} {ts : List θ} {j : Nat} {t u : θ}
    (h : (ts ++ [t])[j]? = some u) : ts[j]? = some u ∨ u = t := by
  rw [List.getElem?_append] at h
  split at h
  · exact .inl h
  · exact .inr (List.mem_singleton.mp (List.mem_of_getElem? h))

/-- A thread that stays where it is. -/
theorem set_eq_self {θ : Type} {ts : List θ} {i : Nat} {t : θ} (h : ts[i]? = some t) :
    ts.set i t = ts := by
  obtain ⟨hlt, rfl⟩ := List.getElem?_eq_some_iff.mp h
  exact List.set_getElem_self hlt

/-- `out` is what the threads wrote, thread `i` the list `ls[i]`: in some
order, but each thread's own order is kept. -/
inductive Interleaves {α : Type} : List (List α) → List α → Prop
  | start (n : Nat) : Interleaves (List.replicate n []) []
  | write {ls : List (List α)} {out : List α} {i : Nat} {l : List α} (h : Interleaves ls out)
      (hi : ls[i]? = some l) (a : α) : Interleaves (ls.set i (l ++ [a])) (out ++ [a])

/-- What was written was written by some thread. -/
theorem Interleaves.mem {α : Type} {ls : List (List α)} {out : List α} (h : Interleaves ls out)
    {a : α} (ha : a ∈ out) : ∃ l ∈ ls, a ∈ l := by
  induction h with
  | start n => cases ha
  | @write ls out i l h hi b ih =>
    have hnew : l ++ [b] ∈ ls.set i (l ++ [b]) :=
      List.mem_set (List.getElem?_eq_some_iff.mp hi).1 _
    rcases List.mem_append.mp ha with ha | ha
    · obtain ⟨l', hl', hmem⟩ := ih ha
      rcases mem_set_of_mem hi hl' (l ++ [b]) with rfl | hold
      · exact ⟨_, hnew, List.mem_append_left _ hmem⟩
      · exact ⟨l', hold, hmem⟩
    · exact ⟨_, hnew, List.mem_append_right _ ha⟩

/-- A thread of the list after one moved is the moved one or an old one. -/
theorem mem_set_cases {θ : Type} {ts : List θ} {i : Nat} {t' u : θ}
    (h : u ∈ ts.set i t') : u = t' ∨ u ∈ ts :=
  (List.mem_or_eq_of_mem_set h).symm

/-! ## Threads over a shared state -/

/-- What holds of the shared state, and of every thread over it. -/
structure Shared {σ θ : Type} (I : σ → Prop) (P : σ → θ → Prop) (s : σ) (ts : List θ) : Prop where
  state : I s
  threads : ∀ t ∈ ts, P s t

section Shared

variable {σ θ : Type} {I : σ → Prop} {P : σ → θ → Prop} {s s' : σ} {ts : List θ}

theorem Shared.spawn (h : Shared I P s ts) {t : θ} (ht : P s t) : Shared I P s (ts ++ [t]) where
  state := h.state
  threads u hu := by
    rcases List.mem_append.mp hu with hold | hnew
    · exact h.threads u hold
    · rw [List.mem_singleton.mp hnew]
      exact ht

/-- The state changes in a way that no thread minds. -/
theorem Shared.changed (h : Shared I P s ts) (hstable : ∀ t, P s t → P s' t) (hs : I s') :
    Shared I P s' ts :=
  ⟨hs, fun t ht => hstable t (h.threads t ht)⟩

/-- One thread makes a step, which changes the state in a way that the
others do not mind. -/
theorem Shared.moved (h : Shared I P s ts) (hstable : ∀ t, P s t → P s' t) (hs : I s') (i : Nat)
    {t : θ} (ht : P s' t) : Shared I P s' (ts.set i t) where
  state := hs
  threads u hu := by
    rcases mem_set_cases hu with rfl | hold
    · exact ht
    · exact hstable u (h.threads u hold)

end Shared

end Scintx.Lib
