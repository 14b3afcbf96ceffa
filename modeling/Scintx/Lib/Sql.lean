/-
Scintx.Lib.Sql — SQL statements over one table with a primary key.

A nullable column is an `Option`. Conditions are THREE-VALUED: a
comparison with NULL is unknown, `AND` and `OR` are Kleene's, and a
`WHERE` clause takes the rows for which its condition is true, not those
for which it is unknown. The simp lemmas reduce `= isTrue` of a
condition to ordinary logic, after which no proof sees the third value.

A statement is a function on tables; `Table.get?` of its result is what
it does to one row. Rows that tie in an `ORDER BY` come in any order:
`selectFirst` runs along an enumeration of the table.
-/
import Mathlib.Data.List.MinMax
import Scintx.Lib.Table

namespace Scintx.Lib.Sql

/-! ## Conditions -/

/-- A truth value; `none` is unknown. -/
abbrev Truth := Option Bool

abbrev isTrue : Truth := some true

section Comparisons

variable {β : Type}

def eq [DecidableEq β] (a b : Option β) : Truth :=
  a.bind fun x => b.map fun y => decide (x = y)

def lt [LT β] [DecidableLT β] (a b : Option β) : Truth :=
  a.bind fun x => b.map fun y => decide (x < y)

def isNotNull (a : Option β) : Truth := some a.isSome

@[simp] theorem eq_isTrue [DecidableEq β] {a : Option β} {y : β} :
    eq a (some y) = isTrue ↔ a = some y := by
  cases a <;> simp [eq]

@[simp] theorem lt_isTrue [LT β] [DecidableLT β] {a : Option β} {y : β} :
    lt a (some y) = isTrue ↔ ∃ x, a = some x ∧ x < y := by
  cases a <;> simp [lt]

@[simp] theorem isNotNull_isTrue {a : Option β} : isNotNull a = isTrue ↔ ∃ x, a = some x := by
  cases a <;> simp [isNotNull]

end Comparisons

def and : Truth → Truth → Truth
  | some false, _ | _, some false => some false
  | some true, some true => some true
  | _, _ => none

def or : Truth → Truth → Truth
  | some true, _ | _, some true => some true
  | some false, some false => some false
  | _, _ => none

@[simp] theorem and_isTrue {a b : Truth} : and a b = isTrue ↔ a = isTrue ∧ b = isTrue := by
  rcases a with _ | _ | _ <;> rcases b with _ | _ | _ <;> simp [and]

@[simp] theorem or_isTrue {a b : Truth} : or a b = isTrue ↔ a = isTrue ∨ b = isTrue := by
  rcases a with _ | _ | _ <;> rcases b with _ | _ | _ <;> simp [or]

/-! ## Statements -/

section Statements

variable {κ α : Type} [DecidableEq κ] {key : α → κ}

/-- Does a row meet a `WHERE` clause? -/
def meets (cond : α → Truth) (v : α) : Bool := cond v = isTrue

/-- `UPDATE … SET … WHERE …`, of columns other than the key. -/
def update (cond : α → Truth) (set : α → α) (hset : ∀ v, key (set v) = key v)
    (t : Table κ α key) : Table κ α key :=
  t.mapRows (fun v => if meets cond v then set v else v) fun v => by
    split
    · exact hset v
    · rfl

/-- `DELETE FROM … WHERE …`. -/
def deleteWhere (cond : α → Truth) (t : Table κ α key) : Table κ α key :=
  t.filterRows fun v => !meets cond v

/-- `INSERT … ON CONFLICT DO NOTHING`. -/
def insertIgnore (v : α) (t : Table κ α key) : Table κ α key :=
  if (t.get? (key v)).isSome then t else t.put v

/-- The rows that a statement with the clause affects, and `COUNT(*)`. -/
def affected (cond : α → Truth) (t : Table κ α key) : Nat :=
  t.countRows (meets cond)

/-- `SELECT … WHERE … ORDER BY … ASC LIMIT 1`, along an enumeration of
the table. -/
def selectFirst {β : Type} [LinearOrder β] (cond : α → Truth) (col : α → β) (t : Table κ α key)
    (order : List κ) : Option α :=
  (t.select order (meets cond)).argmin col

variable {cond : α → Truth} {t : Table κ α key}

@[simp] theorem get?_update {set : α → α} {hset : ∀ v, key (set v) = key v} {k : κ} :
    (update cond set hset t).get? k = (t.get? k).map fun v => if meets cond v then set v else v :=
  Table.get?_mapRows ..

@[simp] theorem get?_deleteWhere {k : κ} :
    (deleteWhere cond t).get? k = (t.get? k).filter fun v => !meets cond v :=
  Table.get?_filterRows ..

theorem affected_pos : 0 < affected cond t ↔ ∃ k v, t.get? k = some v ∧ cond v = isTrue := by
  simp [affected, Table.countRows_pos, meets]

variable {β : Type} [LinearOrder β] {col : α → β} {order : List κ}

theorem selectFirst_none (h : t.Enumerates order) :
    selectFirst cond col t order = none ↔ ∀ k v, t.get? k = some v → cond v ≠ isTrue := by
  rw [selectFirst, List.argmin_eq_none, List.eq_nil_iff_forall_not_mem]
  constructor
  · intro hnone k v hget htrue
    refine hnone v ((Table.mem_select h).mpr ⟨?_, by simpa [meets] using htrue⟩)
    rwa [Table.key_of_get? hget]
  · intro hnone v hv
    obtain ⟨hget, hmeets⟩ := (Table.mem_select h).mp hv
    exact hnone _ v hget (by simpa [meets] using hmeets)

/-- The row selected meets the clause, and none that does comes before
it. -/
theorem selectFirst_some (h : t.Enumerates order) {v : α}
    (hv : selectFirst cond col t order = some v) :
    (t.get? (key v) = some v ∧ cond v = isTrue) ∧
      ∀ k u, t.get? k = some u → cond u = isTrue → col v ≤ col u := by
  obtain ⟨hget, hmeets⟩ := (Table.mem_select h).mp (List.argmin_mem hv)
  refine ⟨⟨hget, by simpa [meets] using hmeets⟩, fun k u hu htrue => ?_⟩
  refine List.le_of_mem_argmin ((Table.mem_select h).mpr ⟨?_, by simpa [meets] using htrue⟩) hv
  rwa [Table.key_of_get? hu]

/-! ## Clauses that say the same -/

/-- Conditions that agree on the rows there are. -/
theorem update_congr {cond' : α → Truth} {set : α → α} {hset : ∀ v, key (set v) = key v}
    (h : ∀ k v, t.get? k = some v → cond v = cond' v) :
    update cond set hset t = update cond' set hset t := by
  refine Table.ext_get? fun k => ?_
  rw [get?_update, get?_update]
  cases hget : t.get? k with
  | none => rfl
  | some v => rw [Option.map_some, Option.map_some, meets, meets, h k v hget]

theorem argmin_congr {γ : Type} [LinearOrder γ] {col' : α → γ} {l : List α}
    (h : ∀ u ∈ l, ∀ v ∈ l, col u < col v ↔ col' u < col' v) : l.argmin col = l.argmin col' := by
  induction l using List.reverseRecOn with
  | nil => rfl
  | append_singleton l v ih =>
    have hrest := ih fun u hu w hw =>
      h u (List.mem_append_left _ hu) w (List.mem_append_left _ hw)
    rw [List.argmin_concat, List.argmin_concat, hrest]
    cases hbest : l.argmin col' with
    | none => rfl
    | some best =>
      have hmem : best ∈ l ++ [v] := List.mem_append_left _ (List.argmin_mem hbest)
      simp only [h v (by simp) best hmem]

/-- Columns that put the rows there are in one order. -/
theorem selectFirst_congr {γ : Type} [LinearOrder γ] {col' : α → γ}
    (h : ∀ k u, t.get? k = some u → ∀ k' v, t.get? k' = some v →
      (col u < col v ↔ col' u < col' v)) :
    selectFirst cond col t order = selectFirst cond col' t order := by
  have hrow {v : α} (hv : v ∈ t.select order (meets cond)) : ∃ k, t.get? k = some v := by
    obtain ⟨k, -, hk⟩ := List.mem_filterMap.mp hv
    exact ⟨k, (Option.filter_eq_some_iff.mp hk).1⟩
  refine argmin_congr fun u hu v hv => ?_
  obtain ⟨k, hk⟩ := hrow hu
  obtain ⟨k', hk'⟩ := hrow hv
  exact h k u hk k' v hk'

end Statements

end Scintx.Lib.Sql
