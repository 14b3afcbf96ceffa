/-
Scintx.Lib.Table — tables of rows filed under a key of their own.

A `Table κ α key` is an unordered finite map in which every row is filed
under its own key: `keyed` is a field, so a row under a foreign key
cannot be built. `put` therefore takes the row alone. The carrier is
Mathlib's `Finmap`, which has no order; a loop over the table runs along
an ENUMERATION of its keys (`Enumerates`), any of them, and what such a
loop collects is `select`. `select_perm` says that two enumerations
collect the same rows up to order, `select_put_perm` what one fresh row
adds.
-/
import Mathlib.Data.Finmap
import Mathlib.Data.List.Perm.Basic

namespace Scintx.Lib

/-- Rows of type `α`, each filed under its own key. -/
structure Table (κ α : Type) [DecidableEq κ] (key : α → κ) where
  rows : Finmap (fun _ : κ => α)
  keyed : ∀ k v, rows.lookup k = some v → key v = k

namespace Table

variable {κ α : Type} [DecidableEq κ] {key : α → κ}

def empty : Table κ α key where
  rows := ∅
  keyed := by intro k v h; simp at h

instance : Inhabited (Table κ α key) := ⟨empty⟩

def get? (t : Table κ α key) (k : κ) : Option α := t.rows.lookup k

/-- File a row, over the one that has its key. -/
def put (t : Table κ α key) (v : α) : Table κ α key where
  rows := t.rows.insert (key v) v
  keyed := by
    intro k u h
    by_cases hk : k = key v
    · subst hk
      rw [Finmap.lookup_insert] at h
      cases h; rfl
    · rw [Finmap.lookup_insert_of_ne _ hk] at h
      exact t.keyed k u h

def erase (t : Table κ α key) (k : κ) : Table κ α key where
  rows := t.rows.erase k
  keyed := by
    intro k' u h
    by_cases hk : k' = k
    · subst hk
      rw [Finmap.lookup_erase] at h
      cases h
    · rw [Finmap.lookup_erase_ne hk] at h
      exact t.keyed k' u h

/-- Number of rows. -/
def size (t : Table κ α key) : Nat := t.rows.keys.card

theorem key_of_get? {t : Table κ α key} {k : κ} {v : α} (h : t.get? k = some v) :
    key v = k := t.keyed k v h

@[simp] theorem get?_empty (k : κ) : (empty : Table κ α key).get? k = none := by
  simp [empty, get?]

@[simp] theorem get?_put_self (t : Table κ α key) (v : α) :
    (t.put v).get? (key v) = some v := by
  simp [put, get?]

theorem get?_put_ne (t : Table κ α key) {v : α} {k : κ} (h : k ≠ key v) :
    (t.put v).get? k = t.get? k := by
  simp only [put, get?]
  exact Finmap.lookup_insert_of_ne _ h

theorem get?_put (t : Table κ α key) (v : α) (k : κ) :
    (t.put v).get? k = if k = key v then some v else t.get? k := by
  by_cases h : k = key v
  · subst h; simp
  · rw [get?_put_ne t h, if_neg h]

@[simp] theorem get?_erase_self (t : Table κ α key) (k : κ) :
    (t.erase k).get? k = none := by
  simp [erase, get?]

theorem get?_erase_ne (t : Table κ α key) {k k' : κ} (h : k' ≠ k) :
    (t.erase k).get? k' = t.get? k' := by
  simp only [erase, get?]
  exact Finmap.lookup_erase_ne h

theorem get?_erase (t : Table κ α key) (k k' : κ) :
    (t.erase k).get? k' = if k' = k then none else t.get? k' := by
  by_cases h : k' = k
  · subst h; simp
  · rw [get?_erase_ne t h, if_neg h]

/-- A table is its lookups. -/
theorem ext_get? {t u : Table κ α key} (h : ∀ k, t.get? k = u.get? k) : t = u := by
  have hr : t.rows = u.rows := Finmap.ext_lookup h
  cases t; cases u
  cases hr; rfl

/-! ## Rewriting every row -/

section MapRows

variable (f : α → α)

omit [DecidableEq κ] in
/-- The keys of a list of entries do not depend on their values. -/
theorem keys_map_entries (l : List (Sigma fun _ : κ => α)) :
    (l.map fun e => (⟨e.1, f e.2⟩ : Sigma fun _ : κ => α)).keys = l.keys := by
  induction l with
  | nil => rfl
  | cons e l ih => simp [List.keys]

theorem dlookup_map_entries (l : List (Sigma fun _ : κ => α)) (k : κ) :
    (l.map fun e => (⟨e.1, f e.2⟩ : Sigma fun _ : κ => α)).dlookup k
      = (l.dlookup k).map f := by
  induction l with
  | nil => rfl
  | cons e l ih =>
    obtain ⟨k', v⟩ := e
    by_cases h : k = k'
    · subst h; simp
    · simp [List.dlookup_cons_ne, h, ih]

/-- Apply `f` to every value of a finite map. -/
def mapVals (m : Finmap (fun _ : κ => α)) : Finmap (fun _ : κ => α) where
  entries := m.entries.map fun e => ⟨e.1, f e.2⟩
  nodupKeys := by
    induction m using Finmap.induction_on with
    | H l =>
      simp only [AList.toFinmap_entries, Multiset.map_coe, Multiset.coe_nodupKeys,
        List.NodupKeys, keys_map_entries]
      exact l.nodupKeys

theorem lookup_mapVals (m : Finmap (fun _ : κ => α)) (k : κ) :
    (mapVals f m).lookup k = (m.lookup k).map f := by
  induction m using Finmap.induction_on with
  | H l => exact dlookup_map_entries f l.entries k

/-- A loop over the table that changes its rows in place: apply a
key-preserving `f` to every row. -/
def mapRows (hf : ∀ v, key (f v) = key v) (t : Table κ α key) : Table κ α key where
  rows := mapVals f t.rows
  keyed := by
    intro k v h
    rw [lookup_mapVals, Option.map_eq_some_iff] at h
    obtain ⟨u, hu, rfl⟩ := h
    rw [hf, t.keyed k u hu]

@[simp] theorem get?_mapRows (hf : ∀ v, key (f v) = key v) (t : Table κ α key) (k : κ) :
    (t.mapRows f hf).get? k = (t.get? k).map f :=
  lookup_mapVals f t.rows k

end MapRows

/-! ## Dropping rows -/

section FilterRows

variable (p : α → Bool)

theorem dlookup_filter_entries {l : List (Sigma fun _ : κ => α)} (hl : l.NodupKeys) (k : κ) :
    (l.filter fun e => decide (p e.2 = true)).dlookup k = (l.dlookup k).filter p := by
  refine Option.ext fun v => ?_
  rw [← Option.mem_def, List.mem_dlookup_iff (hl.sublist List.filter_sublist), List.mem_filter,
    ← List.mem_dlookup_iff hl, Option.filter_eq_some_iff, Option.mem_def, decide_eq_true_eq]

/-- Keep the values that pass `p`. -/
def filterVals (m : Finmap (fun _ : κ => α)) : Finmap (fun _ : κ => α) where
  entries := m.entries.filter fun e => p e.2
  nodupKeys := by
    induction m using Finmap.induction_on with
    | H l => exact l.nodupKeys.sublist List.filter_sublist

theorem lookup_filterVals (m : Finmap (fun _ : κ => α)) (k : κ) :
    (filterVals p m).lookup k = (m.lookup k).filter p := by
  induction m using Finmap.induction_on with
  | H l => exact dlookup_filter_entries p l.nodupKeys k

/-- The rows that pass `p`. -/
def filterRows (t : Table κ α key) : Table κ α key where
  rows := filterVals p t.rows
  keyed := by
    intro k v h
    rw [lookup_filterVals, Option.filter_eq_some_iff] at h
    exact t.keyed k v h.1

@[simp] theorem get?_filterRows (t : Table κ α key) (k : κ) :
    (t.filterRows p).get? k = (t.get? k).filter p :=
  lookup_filterVals p t.rows k

end FilterRows

/-! ## Counting rows -/

/-- Number of rows that pass `p`. -/
def countRows (t : Table κ α key) (p : α → Bool) : Nat :=
  t.rows.entries.countP fun e => p e.2

theorem mem_entries_iff {t : Table κ α key} {e : Sigma fun _ : κ => α} :
    e ∈ t.rows.entries ↔ t.get? e.1 = some e.2 :=
  Finmap.lookup_eq_some_iff.symm

theorem countRows_pos {t : Table κ α key} {p : α → Bool} :
    0 < t.countRows p ↔ ∃ k v, t.get? k = some v ∧ p v = true := by
  rw [countRows, Multiset.countP_pos]
  constructor
  · rintro ⟨⟨k, v⟩, hmem, hp⟩
    exact ⟨k, v, mem_entries_iff.mp hmem, hp⟩
  · rintro ⟨k, v, hget, hp⟩
    exact ⟨⟨k, v⟩, mem_entries_iff.mpr hget, hp⟩

/-- If every row passes, all are counted. -/
theorem countRows_of_forall {t : Table κ α key} {p : α → Bool}
    (h : ∀ k v, t.get? k = some v → p v = true) : t.countRows p = t.size := by
  have hall : t.countRows p = Multiset.card t.rows.entries :=
    Multiset.countP_eq_card.mpr fun e he => h e.1 e.2 (mem_entries_iff.mp he)
  rw [hall]
  exact (Multiset.card_map Sigma.fst t.rows.entries).symm

/-- Tables with the same keys have the same size, whatever their rows. -/
theorem size_congr {β : Type} {key' : β → κ} {t : Table κ α key} {u : Table κ β key'}
    (h : ∀ k, (t.get? k).isSome = (u.get? k).isSome) : t.size = u.size := by
  have hkeys : t.rows.keys = u.rows.keys := by
    ext k
    rw [Finmap.mem_keys, Finmap.mem_keys, ← Finmap.lookup_isSome, ← Finmap.lookup_isSome]
    exact Bool.coe_iff_coe.mpr (h k)
  rw [size, size, hkeys]

/-! ## Enumerations -/

/-- `order` lists the keys of the table, each once: one of the orders in
which a loop over an unordered map may run. -/
def Enumerates (t : Table κ α key) (order : List κ) : Prop :=
  (order : Multiset κ) = t.rows.keys.val

instance (t : Table κ α key) (order : List κ) : Decidable (t.Enumerates order) :=
  inferInstanceAs (Decidable (_ = _))

/-- The rows that pass `p`, in the order of an enumeration. -/
def select (t : Table κ α key) (order : List κ) (p : α → Bool) : List α :=
  order.filterMap fun k => (t.get? k).filter p

theorem Enumerates.nodup {t : Table κ α key} {order : List κ} (h : t.Enumerates order) :
    order.Nodup := by
  have := t.rows.keys.nodup
  rw [← h] at this
  exact this

theorem Enumerates.mem_iff {t : Table κ α key} {order : List κ} (h : t.Enumerates order)
    (k : κ) : k ∈ order ↔ ∃ v, t.get? k = some v := by
  have hm : k ∈ order ↔ k ∈ t.rows.keys.val := by
    rw [← h]; exact Iff.rfl
  rw [hm]
  exact Finmap.mem_keys.trans Finmap.mem_iff

theorem enumerates_of {t : Table κ α key} {order : List κ} (hn : order.Nodup)
    (hm : ∀ k, k ∈ order ↔ ∃ v, t.get? k = some v) : t.Enumerates order := by
  refine (Multiset.Nodup.ext (Multiset.coe_nodup.mpr hn) t.rows.keys.nodup).mpr ?_
  intro k
  have hk : k ∈ t.rows.keys.val ↔ ∃ v, t.get? k = some v :=
    Finmap.mem_keys.trans Finmap.mem_iff
  rw [Multiset.mem_coe, hm k, hk]

/-- Every table has an enumeration. -/
theorem exists_enumerates (t : Table κ α key) : ∃ order, t.Enumerates order := by
  obtain ⟨l, hl⟩ := Quot.exists_rep t.rows.keys.val
  exact ⟨l, hl⟩

theorem Enumerates.perm {t : Table κ α key} {o o' : List κ} (h : t.Enumerates o)
    (h' : t.Enumerates o') : o.Perm o' :=
  Multiset.coe_eq_coe.mp (h.trans h'.symm)

theorem mem_select {t : Table κ α key} {order : List κ} (h : t.Enumerates order)
    {p : α → Bool} {v : α} :
    v ∈ t.select order p ↔ t.get? (key v) = some v ∧ p v = true := by
  simp only [select, List.mem_filterMap, Option.filter_eq_some_iff]
  constructor
  · rintro ⟨k, _, hk, hp⟩
    rw [key_of_get? hk]
    exact ⟨hk, hp⟩
  · rintro ⟨hk, hp⟩
    exact ⟨key v, (h.mem_iff _).mpr ⟨v, hk⟩, hk, hp⟩

/-- Two enumerations collect the same rows up to order. -/
theorem select_perm {t : Table κ α key} {o o' : List κ} (h : t.Enumerates o)
    (h' : t.Enumerates o') (p : α → Bool) : (t.select o p).Perm (t.select o' p) :=
  (h.perm h').filterMap _

theorem select_nodup {t : Table κ α key} {order : List κ} (h : t.Enumerates order)
    (p : α → Bool) : (t.select order p).Nodup := by
  refine List.Nodup.filterMap (fun k k' v hk hk' => ?_) h.nodup
  rw [Option.mem_def, Option.filter_eq_some_iff] at hk hk'
  rw [← key_of_get? hk.1, ← key_of_get? hk'.1]

/-- A row that is not collected, over a row that was not collected. -/
theorem select_put_hidden {t : Table κ α key} {v : α} {p : α → Bool} (hv : p v = false)
    (hold : ∀ u, t.get? (key v) = some u → p u = false) {o o' : List κ} (h : t.Enumerates o)
    (h' : (t.put v).Enumerates o') : ((t.put v).select o' p).Perm (t.select o p) := by
  refine (List.perm_ext_iff_of_nodup (select_nodup h' p) (select_nodup h p)).mpr fun u => ?_
  rw [mem_select h', mem_select h, get?_put]
  by_cases hk : key u = key v
  · rw [if_pos hk]
    constructor
    · rintro ⟨heq, hp⟩
      cases heq
      rw [hv] at hp
      cases hp
    · rintro ⟨hu, hp⟩
      rw [hk] at hu
      rw [hold u hu] at hp
      cases hp
  · rw [if_neg hk]

/-- A fresh row is collected once, and nothing else changes. -/
theorem select_put_perm {t : Table κ α key} {v : α} (hv : t.get? (key v) = none)
    {o o' : List κ} (h : t.Enumerates o) (h' : (t.put v).Enumerates o') (p : α → Bool) :
    ((t.put v).select o' p).Perm ((if p v then [v] else []) ++ t.select o p) := by
  have hnot : key v ∉ o := by
    rw [h.mem_iff, hv]
    simp
  have hcons : (t.put v).Enumerates (key v :: o) := by
    refine enumerates_of (List.nodup_cons.mpr ⟨hnot, h.nodup⟩) ?_
    intro k
    rw [List.mem_cons, h.mem_iff, get?_put]
    by_cases hk : k = key v <;> simp [hk]
  refine (select_perm h' hcons p).trans ?_
  have hrest : (t.put v).select o p = t.select o p := by
    refine List.filterMap_congr ?_
    intro k hk
    rw [get?_put_ne t (fun e => hnot (e ▸ hk))]
  have hhead : (t.put v).select (key v :: o) p
      = (if p v then [v] else []) ++ (t.put v).select o p := by
    simp only [select, List.filterMap_cons, get?_put_self]
    cases hp : p v <;> simp [Option.filter, hp]
  rw [hhead, hrest]

/-! ## Many writes -/

/-- The rows of a list, written one after the other. -/
def putAll (t : Table κ α key) (vs : List α) : Table κ α key :=
  vs.foldl put t

theorem putAll_append (t : Table κ α key) (vs us : List α) :
    t.putAll (vs ++ us) = (t.putAll vs).putAll us :=
  List.foldl_append

/-- A key that was not written keeps its row. -/
theorem get?_putAll_of_not_mem {t : Table κ α key} {vs : List α} {k : κ}
    (h : ∀ v ∈ vs, key v ≠ k) : (t.putAll vs).get? k = t.get? k := by
  induction vs generalizing t with
  | nil => rfl
  | cons v vs ih =>
    have hv : k ≠ key v := Ne.symm (h v List.mem_cons_self)
    exact (ih fun u hu => h u (List.mem_cons_of_mem v hu)).trans (get?_put_ne t hv)

/-- A key that was written has one of its rows. -/
theorem get?_putAll_of_mem {t : Table κ α key} {vs : List α} {v : α} (hv : v ∈ vs) :
    ∃ u ∈ vs, key u = key v ∧ (t.putAll vs).get? (key v) = some u := by
  induction vs generalizing t v with
  | nil => cases hv
  | cons u us ih =>
    by_cases hlater : ∃ x ∈ us, key x = key v
    · obtain ⟨x, hx, hkey⟩ := hlater
      obtain ⟨y, hy, hyx, hget⟩ := ih (t := t.put u) hx
      exact ⟨y, List.mem_cons_of_mem u hy, hyx.trans hkey, hkey ▸ hget⟩
    · have hnone (x : α) (hx : x ∈ us) : key x ≠ key v := fun hkey => hlater ⟨x, hx, hkey⟩
      obtain rfl : v = u := by
        rcases List.mem_cons.mp hv with rfl | hmem
        · rfl
        · exact absurd rfl (hnone v hmem)
      exact ⟨v, List.mem_cons_self, rfl,
        (get?_putAll_of_not_mem hnone).trans (get?_put_self t v)⟩

end Table

end Scintx.Lib
