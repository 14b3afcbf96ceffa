/-
Scintx.Lib.Tenancy — values that one thread at a time may change, without
a lock.

Threads share values filed under keys. Some values are LIVE: exactly one
party holds the key, a thread or something else that is counted in
`rest` (a queue of jobs, say). Other values are held by nobody. A thread
may rely on a value being what it read; what it relies on is `expects`.

Nothing here is enforced by the code such a system runs: writes are plain
writes. The discipline is in the counting. A thread that changes a value
must hold its key, or the value must be one that nobody expects; then
the expectations of all other threads survive (`Tenancy.Inv.move`),
because a second thread that relies on a live value would have to hold
the key as well.
-/
import Scintx.Lib.Transition

namespace Scintx.Lib

/-- Who holds a key, and who relies on which value of it. -/
structure Tenancy (κ ν θ : Type) where
  /-- Live values have one holder. -/
  live : ν → Bool
  holds : κ → θ → Nat
  expects : θ → Option (κ × ν)
  /-- Values no thread relies on. -/
  free : ν → Bool
  expects_not_free : ∀ {t k v}, expects t = some (k, v) → free v = false
  holds_of_expects : ∀ {t k v}, expects t = some (k, v) → live v = true → 0 < holds k t

namespace Tenancy

variable {κ ν θ : Type} (T : Tenancy κ ν θ)

/-- Every live value has one holder, every other value none, and every
thread finds what it relies on. -/
structure Inv (val : κ → ν) (rest : κ → Nat) (ts : List θ) : Prop where
  held : ∀ k, rest k + weigh (T.holds k) ts = (T.live (val k)).toNat
  expected : ∀ (j : Nat) (t : θ), ts[j]? = some t → ∀ k v, T.expects t = some (k, v) → val k = v

variable {T} {val val' : κ → ν} {rest rest' : κ → Nat} {ts : List θ}

theorem Inv.live_of_holds (h : T.Inv val rest ts) {i : Nat} {t : θ} (hi : ts[i]? = some t) {k : κ}
    (hk : 0 < T.holds k t) : T.live (val k) = true := by
  have hle := le_weigh (T.holds k) (List.mem_of_getElem? hi)
  have heq := h.held k
  cases hv : T.live (val k) with
  | true => rfl
  | false =>
    rw [hv, Bool.toNat_false] at heq
    omega

/-- Nobody else relies on a value that its holder, or anyone if it is
free, is about to change. -/
theorem Inv.unexpected (h : T.Inv val rest ts) {i j : Nat} {t u : θ} (hi : ts[i]? = some t)
    (hj : ts[j]? = some u) (hne : j ≠ i) {k : κ} {v : ν} (hu : T.expects u = some (k, v))
    (hmay : 0 < T.holds k t ∨ T.free (val k) = true) : False := by
  have hv : val k = v := h.expected j u hj k v hu
  rcases hmay with hk | hfree
  · have hlive := h.live_of_holds hi hk
    have hku := T.holds_of_expects hu (hv ▸ hlive)
    have htwo := add_le_weigh (T.holds k) hi hj (Ne.symm hne)
    have heq := h.held k
    rw [hlive, Bool.toNat_true] at heq
    omega
  · rw [hv, T.expects_not_free hu] at hfree
    cases hfree

/-- **One thread moves.** It may change the value of one key, if it holds
the key or the value is free, and the holders of every key still add
up. -/
theorem Inv.move (h : T.Inv val rest ts) {i : Nat} {t t' : θ} (hi : ts[i]? = some t) (k : κ)
    (hothers : ∀ y, y ≠ k → val' y = val y)
    (hmay : val' k ≠ val k → 0 < T.holds k t ∨ T.free (val k) = true)
    (hcount : ∀ y, rest' y + T.holds y t' + (T.live (val y)).toNat =
      rest y + T.holds y t + (T.live (val' y)).toNat)
    (hexpect : ∀ y v, T.expects t' = some (y, v) → val' y = v) :
    T.Inv val' rest' (ts.set i t') := by
  refine ⟨fun y => ?_, fun j u hj y v hu => ?_⟩
  · have hset := weigh_set (T.holds y) hi t'
    have hheld := h.held y
    have := hcount y
    omega
  · rcases getElem?_set_cases hj with ⟨-, rfl⟩ | ⟨hne, hold⟩
    · exact hexpect y v hu
    · have hv := h.expected j u hold y v hu
      by_cases hy : y = k
      · subst hy
        by_cases hsame : val' y = val y
        · rw [hsame, hv]
        · exact (h.unexpected hi hold hne hu (hmay hsame)).elim
      · rw [hothers y hy, hv]

/-- A thread that relies on nothing is added; what it holds it takes over
from the rest. -/
theorem Inv.spawn (h : T.Inv val rest ts) {t : θ}
    (hcount : ∀ k, rest' k + T.holds k t = rest k) (hexpects : T.expects t = none) :
    T.Inv val rest' (ts ++ [t]) := by
  refine ⟨fun k => ?_, fun j u hj k v hu => ?_⟩
  · have hheld := h.held k
    have := hcount k
    rw [weigh_append, weigh_cons, weigh_nil]
    omega
  · rcases getElem?_append_singleton hj with hold | rfl
    · exact h.expected j u hold k v hu
    · rw [hexpects] at hu
      cases hu

end Tenancy

end Scintx.Lib
