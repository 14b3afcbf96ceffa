/-
Scintx.Lib.Loop — loops whose end is decided from outside.

`loop step` goes round until a round says `done`. Nothing makes it end,
so it takes a number of rounds and has no result when they are used up;
a result does not depend on the number (`loop_mono`), and what every
round keeps holds at the end (`loop_rule`).

Whether there is an end often depends on a small part of the state, say
a token that each round hands to the next. `Guided` says that a view of
the state decides by itself whether there is a next round and with which
view. Then the loop ends where the trail of views does
(`Guided.isSome_loop_iff`), a view that comes twice comes forever
(`trail_of_repeat`), and among finitely many views a trail ends exactly
if none comes twice (`trail_ends_iff_of_finite`).
-/
import Mathlib.Data.Set.Finite.Basic
import Mathlib.Data.Fintype.EquivFin

namespace Scintx.Lib

variable {σ ρ τ : Type}

/-- What one round comes to. -/
inductive Round (σ ρ : Type) where
  | again (s : σ)
  | done (r : ρ)

/-- At most `n` rounds from `s`. -/
def loop (step : σ → Round σ ρ) : Nat → σ → Option ρ
  | 0, _ => none
  | n + 1, s =>
    match step s with
    | .again s' => loop step n s'
    | .done r => some r

/-- The loop ends. -/
def Halts (step : σ → Round σ ρ) (s : σ) : Prop :=
  ∃ n, (loop step n s).isSome

theorem loop_again {step : σ → Round σ ρ} {s s' : σ} (h : step s = .again s') (n : Nat) :
    loop step (n + 1) s = loop step n s' := by
  simp only [loop, h]

theorem loop_done {step : σ → Round σ ρ} {s : σ} {r : ρ} (h : step s = .done r) (n : Nat) :
    loop step (n + 1) s = some r := by
  simp only [loop, h]

/-- More rounds do not change a result. -/
theorem loop_mono {step : σ → Round σ ρ} {n m : Nat} {s : σ} {r : ρ}
    (h : loop step n s = some r) (hle : n ≤ m) : loop step m s = some r := by
  induction n generalizing m s with
  | zero => cases h
  | succ n ih =>
    obtain ⟨m, rfl⟩ : ∃ k, m = k + 1 := ⟨m - 1, by omega⟩
    cases hstep : step s with
    | again s' =>
      rw [loop_again hstep] at h ⊢
      exact ih h (by omega)
    | done r' =>
      rw [loop_done hstep] at h ⊢
      exact h

theorem loop_unique {step : σ → Round σ ρ} {n m : Nat} {s : σ} {r r' : ρ}
    (h : loop step n s = some r) (h' : loop step m s = some r') : r = r' := by
  have hr := loop_mono h (Nat.le_max_left n m)
  have hr' := loop_mono h' (Nat.le_max_right n m)
  exact Option.some.inj (hr.symm.trans hr')

/-- **The rule for loops**: what holds at the start and is kept by every
further round gives what is known at the end. -/
theorem loop_rule {step : σ → Round σ ρ} {I : σ → Prop} {Q : ρ → Prop}
    (hagain : ∀ s s', I s → step s = .again s' → I s')
    (hdone : ∀ s r, I s → step s = .done r → Q r) {n : Nat} {s : σ} {r : ρ} (hs : I s)
    (h : loop step n s = some r) : Q r := by
  induction n generalizing s with
  | zero => cases h
  | succ n ih =>
    cases hstep : step s with
    | again s' =>
      rw [loop_again hstep] at h
      exact ih (hagain s s' hs hstep) h
    | done r' =>
      rw [loop_done hstep, Option.some.injEq] at h
      exact h ▸ hdone s r' hs hstep

/-! ## Trails -/

/-- The `n`-th view from `t` on, while there is one. -/
def trail (next : τ → Option τ) (t : τ) : Nat → Option τ
  | 0 => some t
  | n + 1 => (trail next t n).bind next

/-- The view `f` of the state decides whether there is a next round. -/
structure Guided (step : σ → Round σ ρ) (f : σ → τ) (next : τ → Option τ) : Prop where
  again : ∀ s s', step s = .again s' → next (f s) = some (f s')
  done : ∀ s r, step s = .done r → next (f s) = none

variable {next : τ → Option τ} {t : τ}

theorem trail_succ (next : τ → Option τ) (t : τ) (n : Nat) :
    trail next t (n + 1) = (next t).bind fun t' => trail next t' n := by
  induction n with
  | zero =>
    simp only [trail, Option.bind_some]
    cases next t <;> rfl
  | succ n ih =>
    rw [trail, ih]
    cases next t with
    | none => rfl
    | some t' => rfl

/-- **The loop ends where the trail does.** -/
theorem Guided.isSome_loop_iff {step : σ → Round σ ρ} {f : σ → τ} (h : Guided step f next)
    (n : Nat) (s : σ) : (loop step n s).isSome ↔ trail next (f s) n = none := by
  induction n generalizing s with
  | zero => simp [loop, trail]
  | succ n ih =>
    rw [trail_succ]
    cases hstep : step s with
    | again s' =>
      rw [loop_again hstep, h.again s s' hstep, ih]
      rfl
    | done r =>
      rw [loop_done hstep, h.done s r hstep]
      simp

theorem Guided.halts_iff {step : σ → Round σ ρ} {f : σ → τ} (h : Guided step f next) (s : σ) :
    Halts step s ↔ ∃ n, trail next (f s) n = none :=
  exists_congr fun n => h.isSome_loop_iff n s

theorem trail_none_of_le {n m : Nat} (h : trail next t n = none) (hle : n ≤ m) :
    trail next t m = none := by
  induction hle with
  | refl => exact h
  | step _ ih => rw [trail, ih, Option.bind_none]

theorem trail_add (n m : Nat) :
    trail next t (n + m) = (trail next t n).bind fun t' => trail next t' m := by
  induction m with
  | zero =>
    simp only [Nat.add_zero, trail]
    cases trail next t n <;> rfl
  | succ m ih =>
    rw [← Nat.add_assoc, trail, ih]
    cases trail next t n <;> rfl

/-- A view that comes twice comes forever. -/
theorem trail_of_repeat {i j : Nat} {u : τ} (hlt : i < j) (hi : trail next t i = some u)
    (hj : trail next t j = some u) (n : Nat) : trail next t n ≠ none := by
  -- going round once more from `u` leads back to `u`
  have hround : trail next u (j - i) = some u := by
    have hsplit := @trail_add _ next t i (j - i)
    rw [show i + (j - i) = j by omega, hi, hj] at hsplit
    exact hsplit.symm
  have hrounds (k : Nat) : trail next u (k * (j - i)) = some u := by
    induction k with
    | zero => rw [Nat.zero_mul, trail]
    | succ k ih => rw [Nat.succ_mul, trail_add, ih, Option.bind_some, hround]
  intro hnone
  have hlate : trail next t (i + n * (j - i)) = some u := by
    rw [trail_add, hi, Option.bind_some, hrounds]
  have hle : n ≤ i + n * (j - i) := by
    have : n * 1 ≤ n * (j - i) := Nat.mul_le_mul_left n (by omega)
    omega
  rw [trail_none_of_le hnone hle] at hlate
  cases hlate

/-- **Among finitely many views** a trail ends if and only if none comes
twice. -/
theorem trail_ends_iff_of_finite (hfin : {u | ∃ n, trail next t n = some u}.Finite) :
    (∃ n, trail next t n = none) ↔
      ∀ i j, i < j → trail next t i = trail next t j → trail next t i = none := by
  constructor
  · intro hend i j hlt heq
    obtain ⟨n, hn⟩ := hend
    cases hi : trail next t i with
    | none => rfl
    | some u => exact absurd hn (trail_of_repeat hlt hi (heq ▸ hi) n)
  · intro hnew
    by_contra hend
    rw [not_exists] at hend
    have hinj : Function.Injective fun n => trail next t n := by
      intro i j heq
      rcases Nat.lt_trichotomy i j with hlt | rfl | hlt
      · exact absurd (hnew i j hlt heq) (hend i)
      · rfl
      · exact absurd (hnew j i hlt heq.symm) (hend j)
    refine Set.infinite_range_of_injective hinj ((hfin.image some).subset ?_)
    intro o ho
    obtain ⟨n, rfl⟩ := ho
    obtain ⟨u, hu⟩ := Option.ne_none_iff_exists'.mp (hend n)
    exact ⟨u, ⟨n, hu⟩, hu.symm⟩

end Scintx.Lib
