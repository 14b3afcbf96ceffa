/-
Scintx.Lib.Chain — following links to a known end.

`Linked next stop a l`: from `a`, following `next` visits the nodes of
`l` and then arrives at `stop`. The nodes of a chain need no order of
their own; that none is visited twice is a CONSEQUENCE of the chain
having an end, since the chain from a node is unique.
-/
import Mathlib.Data.List.Nodup

namespace Scintx.Lib

/-- The chain from a node to `stop`, `stop` excluded. -/
inductive Linked {κ : Type} (next : κ → Option κ) (stop : κ) : κ → List κ → Prop
  | stop : Linked next stop stop []
  | link {a b : κ} {l : List κ} (hne : a ≠ stop) (hnext : next a = some b)
      (h : Linked next stop b l) : Linked next stop a (a :: l)

namespace Linked

variable {κ : Type} {next next' : κ → Option κ} {stop a : κ} {l l' : List κ}

theorem unique (h : Linked next stop a l) (h' : Linked next stop a l') : l = l' := by
  induction h generalizing l' with
  | stop =>
    cases h' with
    | stop => rfl
    | link hne => exact absurd rfl hne
  | link hne hnext _ ih =>
    cases h' with
    | stop => exact absurd rfl hne
    | link _ hnext' h' =>
      cases hnext.symm.trans hnext'
      rw [ih h']

/-- From each of its nodes a chain goes on to its end. -/
theorem suffix (h : Linked next stop a l) {b : κ} (hb : b ∈ l) :
    ∃ l', Linked next stop b l' ∧ l' <:+ l := by
  induction h with
  | stop => cases hb
  | @link a _ l hne hnext h ih =>
    rcases List.mem_cons.mp hb with rfl | hmem
    · exact ⟨_, .link hne hnext h, List.suffix_refl _⟩
    · obtain ⟨l', hl', hsuf⟩ := ih hmem
      exact ⟨l', hl', hsuf.trans (List.suffix_cons a l)⟩

/-- **No node is visited twice.** -/
theorem nodup (h : Linked next stop a l) : l.Nodup := by
  induction h with
  | stop => exact List.nodup_nil
  | @link a _ l hne hnext h ih =>
    refine List.nodup_cons.mpr ⟨fun hmem => ?_, ih⟩
    -- the chain from `a` would be a proper part of itself
    obtain ⟨l', hl', hsuf⟩ := h.suffix hmem
    have hlen := hsuf.length_le
    rw [hl'.unique (.link hne hnext h), List.length_cons] at hlen
    omega

/-- Links outside the chain do not matter. -/
theorem congr (h : Linked next stop a l) (hsame : ∀ b ∈ l, next' b = next b) :
    Linked next' stop a l := by
  induction h with
  | stop => exact .stop
  | @link a _ l hne hnext _ ih =>
    refine .link hne ((hsame a List.mem_cons_self).trans hnext) (ih fun b hb => ?_)
    exact hsame b (List.mem_cons_of_mem a hb)

end Linked

end Scintx.Lib
