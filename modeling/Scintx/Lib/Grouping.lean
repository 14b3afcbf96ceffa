/-
Scintx.Lib.Grouping — grouping a list by a key, in order of first
appearance, and what the order of the list can change.

§1 is the map-and-key-order idiom (`groups[key] = append(…)` beside a
`keyOrder` slice) as one association list, with its closed form
`groupBy_eq`: the distinct keys in order of first appearance, each with
the elements that have it, in list order. `Buckets` is the idiom itself,
a map and an order kept side by side, and `Buckets.collect_groups` says
that the two are one.

§2 is about what a grouping takes from the FIRST list element that
carries a key. When the elements are permuted, a key's first carrier
changes, and with it a score that depends on (carrier, key). `Settled`
says exactly when the largest score cannot be changed that way.

§3 is about the first match in a list whose matches are wanted in
DESCENDING order: weakening the test can only move the match forward.
-/
import Mathlib.Data.Finmap
import Mathlib.Data.List.Induction
import Mathlib.Data.List.Perm.Basic

namespace Scintx.Lib

/-! ## §1 Groups in order of first appearance -/

section Groups

variable {α κ : Type} [DecidableEq κ]

/-- Append `a` to the group of `k`, which is opened at the end if it is
not there. -/
def insertGroup (k : κ) (a : α) : List (κ × List α) → List (κ × List α)
  | [] => [(k, [a])]
  | (k', as) :: gs =>
    if k' = k then (k', as ++ [a]) :: gs else (k', as) :: insertGroup k a gs

def groupBy (key : α → κ) (l : List α) : List (κ × List α) :=
  l.foldl (fun gs a => insertGroup (key a) a gs) []

/-- The elements of `l` with key `k`, in order. -/
def withKey (key : α → κ) (l : List α) (k : κ) : List α :=
  l.filter fun a => key a = k

/-- The distinct keys of `l` in order of first appearance. -/
def keyOrder (key : α → κ) (l : List α) : List κ :=
  (l.map key).eraseDups

theorem mem_keyOrder {key : α → κ} {l : List α} {k : κ} :
    k ∈ keyOrder key l ↔ ∃ a ∈ l, key a = k := by
  simp [keyOrder, List.mem_eraseDups]

theorem keyOrder_snoc (key : α → κ) (l : List α) (a : α) :
    keyOrder key (l ++ [a]) =
      if key a ∈ keyOrder key l then keyOrder key l else keyOrder key l ++ [key a] := by
  simp only [keyOrder, List.map_append, List.map_cons, List.map_nil, List.eraseDups_append]
  rw [List.removeAll, List.filter_cons]
  by_cases h : key a ∈ l.map key
  · simp [h, List.mem_eraseDups]
  · simp [h, List.mem_eraseDups, List.eraseDups_cons]

theorem withKey_snoc (key : α → κ) (l : List α) (a : α) (k : κ) :
    withKey key (l ++ [a]) k =
      if key a = k then withKey key l k ++ [a] else withKey key l k := by
  by_cases h : key a = k <;> simp [withKey, h]

theorem insertGroup_map_of_mem {k : κ} {a : α} {ks : List κ} {g : κ → List α} (hk : k ∈ ks)
    (hnd : ks.Nodup) :
    insertGroup k a (ks.map fun k' => (k', g k')) =
      ks.map fun k' => (k', if k = k' then g k' ++ [a] else g k') := by
  induction ks with
  | nil => simp at hk
  | cons k' ks ih =>
    rw [List.nodup_cons] at hnd
    simp only [List.map_cons, insertGroup]
    by_cases h : k' = k
    · subst h
      simp only [if_true, List.cons.injEq, true_and]
      refine List.map_congr_left fun x hx => ?_
      rw [if_neg (by rintro rfl; exact hnd.1 hx)]
    · rw [if_neg h, if_neg (Ne.symm h), ih ((List.mem_cons.mp hk).resolve_left (Ne.symm h)) hnd.2]

theorem insertGroup_map_of_not_mem {k : κ} {a : α} {ks : List κ} {g : κ → List α}
    (hk : k ∉ ks) :
    insertGroup k a (ks.map fun k' => (k', g k')) =
      (ks.map fun k' => (k', g k')) ++ [(k, [a])] := by
  induction ks with
  | nil => rfl
  | cons k' ks ih =>
    simp only [List.mem_cons, not_or] at hk
    simp only [List.map_cons, insertGroup, if_neg (Ne.symm hk.1), ih hk.2, List.cons_append]

theorem nodup_keyOrder (key : α → κ) (l : List α) : (keyOrder key l).Nodup := by
  induction l using List.reverseRecOn with
  | nil => simp [keyOrder]
  | append_singleton l a ih =>
    rw [keyOrder_snoc]
    split
    · exact ih
    · rename_i h
      refine List.nodup_append.mpr ⟨ih, by simp, ?_⟩
      intro k hk b hb heq
      rw [List.mem_singleton] at hb
      exact h (hb ▸ heq ▸ hk)

/-- The closed form of the grouping loop. -/
theorem groupBy_eq (key : α → κ) (l : List α) :
    groupBy key l = (keyOrder key l).map fun k => (k, withKey key l k) := by
  induction l using List.reverseRecOn with
  | nil => simp [groupBy, keyOrder]
  | append_singleton l a ih =>
    have hstep : groupBy key (l ++ [a]) = insertGroup (key a) a (groupBy key l) := by
      simp [groupBy]
    rw [hstep, ih, keyOrder_snoc]
    by_cases h : key a ∈ keyOrder key l
    · rw [if_pos h, insertGroup_map_of_mem h (nodup_keyOrder key l)]
      exact List.map_congr_left fun k _ => by rw [withKey_snoc]
    · rw [if_neg h, insertGroup_map_of_not_mem h, List.map_append]
      have hnone : withKey key l (key a) = [] := by
        rw [withKey, List.filter_eq_nil_iff]
        intro b hb hk
        exact h (mem_keyOrder.mpr ⟨b, hb, by simpa using hk⟩)
      congr 1
      · refine List.map_congr_left fun k hk => ?_
        rw [withKey_snoc, if_neg (by rintro rfl; exact h hk)]
      · simp [withKey_snoc, hnone]

theorem mem_groupBy {key : α → κ} {l : List α} {k : κ} {as : List α} :
    (k, as) ∈ groupBy key l ↔ as = withKey key l k ∧ as ≠ [] := by
  rw [groupBy_eq]
  simp only [List.mem_map, Prod.mk.injEq, mem_keyOrder]
  constructor
  · rintro ⟨_, ⟨a, ha, rfl⟩, rfl, rfl⟩
    refine ⟨rfl, List.ne_nil_of_mem (a := a) ?_⟩
    simp [withKey, ha]
  · rintro ⟨rfl, hne⟩
    obtain ⟨a, ha⟩ := List.exists_mem_of_ne_nil _ hne
    simp only [withKey, List.mem_filter, decide_eq_true_eq] at ha
    exact ⟨k, ⟨a, ha⟩, rfl, rfl⟩

theorem insertGroup_perm (k : κ) (a : α) (gs : List (κ × List α)) :
    ((insertGroup k a gs).flatMap (·.2)).Perm (a :: gs.flatMap (·.2)) := by
  induction gs with
  | nil => simp [insertGroup]
  | cons g gs ih =>
    rw [insertGroup]
    split
    · simp only [List.flatMap_cons, List.append_assoc, List.singleton_append]
      exact List.perm_middle
    · simp only [List.flatMap_cons]
      exact (ih.append_left g.2).trans List.perm_middle

/-- Grouping loses nothing and doubles nothing. -/
theorem groupBy_perm (key : α → κ) (l : List α) : ((groupBy key l).flatMap (·.2)).Perm l := by
  induction l using List.reverseRecOn with
  | nil => simp [groupBy]
  | append_singleton l a ih =>
    have hstep : groupBy key (l ++ [a]) = insertGroup (key a) a (groupBy key l) := by
      simp [groupBy]
    rw [hstep]
    exact (insertGroup_perm _ a _).trans ((ih.cons a).trans (List.perm_append_singleton a l).symm)

/-- Before the first element with the `n`th key there are only elements
with the keys before it. -/
theorem keyOrder_split {key : α → κ} {l : List α} {n : Nat} {k : κ}
    (h : (keyOrder key l)[n]? = some k) :
    ∃ front a rest, l = front ++ a :: rest ∧ key a = k ∧
      keyOrder key front = (keyOrder key l).take n := by
  induction l using List.reverseRecOn with
  | nil => simp [keyOrder] at h
  | append_singleton l a ih =>
    rw [keyOrder_snoc] at h ⊢
    split at h
    · rename_i hmem
      obtain ⟨front, b, rest, rfl, hk, htake⟩ := ih h
      exact ⟨front, b, rest ++ [a], by simp, hk, by rw [if_pos hmem, htake]⟩
    · rename_i hmem
      rw [if_neg hmem]
      rcases Nat.lt_or_ge n (keyOrder key l).length with hlt | hge
      · rw [List.getElem?_append_left hlt] at h
        obtain ⟨front, b, rest, rfl, hk, htake⟩ := ih h
        exact ⟨front, b, rest ++ [a], by simp, hk,
          by rw [htake, List.take_append_of_le_length (Nat.le_of_lt hlt)]⟩
      · -- the key of the last element is new and comes last
        rw [List.getElem?_append_right hge, List.getElem?_singleton] at h
        split at h
        · rename_i hn
          have hlen : n = (keyOrder key l).length := by omega
          exact ⟨l, a, [], rfl, Option.some.inj h, by rw [hlen, List.take_left]⟩
        · cases h

/-- Groups in a map, and the keys of the map in the order in which they
came up. -/
structure Buckets (κ α : Type) where
  groups : Finmap fun _ : κ => List α
  order : List κ

def Buckets.empty : Buckets κ α := { groups := ∅, order := [] }

/-- `if _, ok := groups[key]; !ok { order = append(order, key) }`, then
`groups[key] = append(groups[key], a)`. -/
def Buckets.add (key : α → κ) (b : Buckets κ α) (a : α) : Buckets κ α :=
  { order := if key a ∈ b.groups then b.order else b.order ++ [key a]
    groups := b.groups.insert (key a) ((b.groups.lookup (key a)).getD [] ++ [a]) }

/-- The two structures agree: the map has the keys of the order, each with
the elements seen so far. -/
theorem Buckets.collect_spec (key : α → κ) (l : List α) :
    let b := l.foldl (Buckets.add key) .empty
    b.order = keyOrder key l ∧
      ∀ k, b.groups.lookup k = if k ∈ keyOrder key l then some (withKey key l k) else none := by
  induction l using List.reverseRecOn with
  | nil => simp [Buckets.empty, keyOrder]
  | append_singleton l a ih =>
    simp only [List.foldl_append, List.foldl_cons, List.foldl_nil] at ih ⊢
    obtain ⟨horder, hgroups⟩ := ih
    generalize l.foldl (Buckets.add key) .empty = b at horder hgroups
    have hmem (k : κ) : k ∈ b.groups ↔ k ∈ keyOrder key l := by
      rw [← Finmap.lookup_isSome, hgroups]
      split <;> simp_all
    have hbefore : (b.groups.lookup (key a)).getD [] = withKey key l (key a) := by
      rw [hgroups]
      split
      · rfl
      · rename_i hnew
        symm
        rw [Option.getD_none, withKey, List.filter_eq_nil_iff]
        intro x hx hkey
        exact hnew (mem_keyOrder.mpr ⟨x, hx, by simpa using hkey⟩)
    refine ⟨?_, fun k => ?_⟩
    · rw [Buckets.add, keyOrder_snoc, horder]
      simp only [hmem]
    · have hnext : k ∈ keyOrder key (l ++ [a]) ↔ k ∈ keyOrder key l ∨ key a = k := by
        simp only [mem_keyOrder, List.mem_append, List.mem_singleton, or_and_right, exists_or,
          exists_eq_left]
      simp only [Buckets.add, hbefore, hnext, withKey_snoc]
      by_cases hk : key a = k
      · subst hk
        simp
      · rw [Finmap.lookup_insert_of_ne _ (Ne.symm hk), hgroups]
        simp [hk]

/-- **The map and the order together are the association list.** -/
theorem Buckets.collect_groups (key : α → κ) (l : List α) :
    let b := l.foldl (Buckets.add key) .empty
    b.order.map (fun k => (k, (b.groups.lookup k).getD [])) = groupBy key l := by
  obtain ⟨horder, hgroups⟩ := Buckets.collect_spec key l
  simp only [horder, hgroups, groupBy_eq]
  refine List.map_congr_left fun k hk => ?_
  rw [if_pos hk]
  rfl

end Groups

/-! ## §2 What depends on who comes first -/

section FirstCome

variable {ρ κ : Type} (carries : ρ → κ → Bool)

def firstCarrier (l : List ρ) (k : κ) : Option ρ :=
  l.find? fun r => carries r k

/-- Some key gets a score of at least `n` from its first carrier. -/
def Reaches (score : ρ → κ → Nat) (l : List ρ) (n : Nat) : Prop :=
  ∃ k r, firstCarrier carries l k = some r ∧ n ≤ score r k

/-- The elements of `R` hold among themselves: each brings a key that is
hot for it and that nobody outside `R` carries. Whatever the order, the
first element of `R` then comes first for a key that is hot for it. -/
def SelfHeld (hot : ρ → κ → Prop) (l : List ρ) (R : ρ → Prop) : Prop :=
  ∀ r ∈ l, R r → ∃ k, carries r k ∧ hot r k ∧ ∀ r' ∈ l, carries r' k → R r'

/-- Every score above `base` that some carrier can give a key is held by
a self-held set. -/
def Settled (score : ρ → κ → Nat) (base : Nat) (l : List ρ) : Prop :=
  ∀ n, base < n → (∃ r ∈ l, ∃ k, carries r k ∧ n ≤ score r k) →
    ∃ R, (∃ r ∈ l, R r) ∧ SelfHeld carries (fun r k => n ≤ score r k) l R

variable {carries}

theorem firstCarrier_eq_some {l : List ρ} {k : κ} {r : ρ} :
    firstCarrier carries l k = some r ↔
      carries r k ∧ ∃ p q, l = p ++ r :: q ∧ ∀ x ∈ p, carries x k = false := by
  simp [firstCarrier, List.find?_eq_some_iff_append]

/-- Without a self-held set, the elements can be ordered so that nobody
comes first for a key that is hot for it: append, again and again, an
element whose hot keys are all carried already. -/
theorem exists_perm_of_no_selfHeld {hot : ρ → κ → Prop} {l : List ρ}
    (h : ∀ R, (∃ r ∈ l, R r) → ¬ SelfHeld carries hot l R) :
    ∃ π, π.Perm l ∧ ∀ k r, firstCarrier carries π k = some r → ¬ hot r k := by
  suffices hgo : ∀ (n : Nat) (done left : List ρ), left.length = n → (done ++ left).Perm l →
      (∀ k r, firstCarrier carries done k = some r → ¬ hot r k) →
      ∃ π, π.Perm l ∧ ∀ k r, firstCarrier carries π k = some r → ¬ hot r k from
    hgo l.length [] l rfl (List.Perm.refl l) (by simp [firstCarrier])
  intro n
  induction n with
  | zero =>
    intro done left hlen hperm hdone
    rw [List.length_eq_zero_iff] at hlen
    subst hlen
    exact ⟨done, by simpa using hperm, hdone⟩
  | succ n ih =>
    intro done left hlen hperm hdone
    have hnext : ∃ r ∈ left, ∀ k, carries r k → hot r k → ∃ r' ∈ done, carries r' k := by
      by_cases hold : ∃ r ∈ left, r ∈ done
      · obtain ⟨r, hr, hrd⟩ := hold
        exact ⟨r, hr, fun k hk _ => ⟨r, hrd, hk⟩⟩
      · obtain ⟨x, hx⟩ := List.exists_mem_of_length_pos (show 0 < left.length by omega)
        have hnot := h (fun r => r ∉ done)
          ⟨x, hperm.subset (List.mem_append_right _ hx), fun hd => hold ⟨x, hx, hd⟩⟩
        simp only [SelfHeld, not_forall] at hnot
        obtain ⟨r, hrl, hrd, hr⟩ := hnot
        refine ⟨r, ?_, ?_⟩
        · exact (List.mem_append.mp (hperm.symm.subset hrl)).resolve_left hrd
        · intro k hk hhot
          by_contra hnone
          refine hr ⟨k, hk, hhot, fun r' _ hk' hd => hnone ⟨r', hd, hk'⟩⟩
    obtain ⟨r, hr, hcov⟩ := hnext
    obtain ⟨p, q, rfl⟩ := List.append_of_mem hr
    refine ih (done ++ [r]) (p ++ q) ?_ ?_ ?_
    · simp only [List.length_append, List.length_cons] at hlen ⊢
      omega
    · refine List.Perm.trans ?_ hperm
      rw [List.append_assoc]
      exact List.Perm.append_left done
        (show (r :: (p ++ q)).Perm (p ++ r :: q) from List.perm_middle.symm)
    · intro k x hx
      rw [firstCarrier, List.find?_append, Option.or_eq_some_iff] at hx
      rcases hx with hx | ⟨hnone, hx⟩
      · exact hdone k x hx
      · simp only [List.find?_singleton, Option.ite_none_right_eq_some, Option.some.injEq] at hx
        obtain ⟨hk, rfl⟩ := hx
        intro hhot
        obtain ⟨r', hr', hk'⟩ := hcov k hk hhot
        exact List.find?_eq_none.mp hnone r' hr' hk'

theorem reaches_of_settled {score : ρ → κ → Nat} {base n : Nat} {l π : List ρ}
    (h : Settled carries score base l) (hn : base < n) (hp : π.Perm l)
    (hhot : ∃ r ∈ l, ∃ k, carries r k ∧ n ≤ score r k) : Reaches carries score π n := by
  classical
  obtain ⟨R, ⟨x, hx, hRx⟩, hheld⟩ := h n hn hhot
  -- the first element of the order that is in `R`
  have hfind : (π.find? fun r => decide (R r)).isSome :=
    List.find?_isSome.mpr ⟨x, hp.symm.subset hx, decide_eq_true hRx⟩
  obtain ⟨r, hr⟩ := Option.isSome_iff_exists.mp hfind
  obtain ⟨hRr, p, q, hπ, hbefore⟩ := List.find?_eq_some_iff_append.mp hr
  have hrl : r ∈ l := hp.subset (by simp [hπ])
  obtain ⟨k, hk, hscore, hall⟩ := hheld r hrl (of_decide_eq_true hRr)
  refine ⟨k, r, firstCarrier_eq_some.mpr ⟨hk, p, q, hπ, ?_⟩, hscore⟩
  intro y hy
  by_contra hyk
  have hRy : R y := hall y (hp.subset (by simp [hπ, hy])) (by simpa using hyk)
  simpa [hRy] using hbefore y hy

theorem hot_of_reaches {score : ρ → κ → Nat} {n : Nat} {l π : List ρ} (hp : π.Perm l)
    (h : Reaches carries score π n) : ∃ r ∈ l, ∃ k, carries r k ∧ n ≤ score r k := by
  obtain ⟨k, r, hfirst, hscore⟩ := h
  obtain ⟨hk, p, q, rfl, -⟩ := firstCarrier_eq_some.mp hfirst
  exact ⟨r, hp.subset (by simp), k, hk, hscore⟩

/-- **The order of the list changes nothing above `base` exactly when the
scores are settled.** -/
theorem reaches_perm_iff_settled {score : ρ → κ → Nat} {base : Nat} {l : List ρ} :
    (∀ π, π.Perm l → ∀ n, base < n → (Reaches carries score π n ↔ Reaches carries score l n)) ↔
      Settled carries score base l := by
  constructor
  · intro h n hn hhot
    by_contra hno
    simp only [not_exists, not_and] at hno
    obtain ⟨π, hπ, havoid⟩ := exists_perm_of_no_selfHeld hno
    obtain ⟨r, hr, k, hk, hscore⟩ := hhot
    obtain ⟨p, q, rfl⟩ := List.append_of_mem hr
    -- the order with `r` in front reaches `n`
    have hfront : Reaches carries score (r :: (p ++ q)) n :=
      ⟨k, r, firstCarrier_eq_some.mpr ⟨hk, [], p ++ q, rfl, by simp⟩, hscore⟩
    have hmid := (h _ List.perm_middle.symm n hn).mp hfront
    obtain ⟨k', r', hfirst, hscore'⟩ := (h π hπ n hn).mpr hmid
    exact havoid k' r' hfirst hscore'
  · intro h π hπ n hn
    constructor
    · exact fun hr => reaches_of_settled h hn (List.Perm.refl l) (hot_of_reaches hπ hr)
    · exact fun hr => reaches_of_settled h hn hπ (hot_of_reaches (List.Perm.refl l) hr)

end FirstCome

/-! ## §3 The first match in a descending list -/

theorem find?_weaken_of_descending {α : Type} {score : α → Nat} {p q : α → Bool} {l : List α}
    (hdesc : l.Pairwise fun a b => score b ≤ score a) (hpq : ∀ a ∈ l, p a = true → q a = true)
    {a : α} (ha : l.find? p = some a) : ∃ b, l.find? q = some b ∧ score a ≤ score b := by
  induction l with
  | nil => simp at ha
  | cons x l ih =>
    rw [List.pairwise_cons] at hdesc
    by_cases hq : q x = true
    · refine ⟨x, by simp [hq], ?_⟩
      rcases List.mem_cons.mp (List.mem_of_find?_eq_some ha) with rfl | hmem
      · exact Nat.le_refl _
      · exact hdesc.1 a hmem
    · -- the head passes neither test, so both searches go on behind it
      have hp : ¬ p x = true := fun hp => hq (hpq x (by simp) hp)
      rw [List.find?_cons_of_neg hp] at ha
      rw [List.find?_cons_of_neg hq]
      exact ih hdesc.2 (fun b hb => hpq b (by simp [hb])) ha

end Scintx.Lib
