/-
Scintx.Lib.JsonCopy — copies made by encoding a value as JSON and
decoding the text.

Package `encoding/json` walks a value: a record field by field, a list
element by element. A copy is therefore decided at the LEAVES. `copy` is
what decoding gives back, `none` if either way fails; `Kept` says, leaf by
leaf, that it is the value itself (`kept_iff`). A copy that was made is
itself kept, so a second copy changes nothing.
-/
import Mathlib.Logic.Equiv.Defs
import Scintx.Lib.Float64

namespace Scintx.Lib

/-- Types whose values have copies through JSON. -/
class JsonCopy (α : Type) where
  copy : α → Option α
  Kept : α → Prop
  copy_of_kept : ∀ {v}, Kept v → copy v = some v
  kept_of_copy : ∀ {v w}, copy v = some w → Kept w

namespace JsonCopy

variable {α β : Type}

theorem kept_iff [JsonCopy α] {v : α} : copy v = some v ↔ Kept v :=
  ⟨kept_of_copy, copy_of_kept⟩

/-! ## Leaves -/

/-- A type whose values are all kept. -/
@[reducible] def lossless (α : Type) : JsonCopy α where
  copy := some
  Kept _ := True
  copy_of_kept _ := rfl
  kept_of_copy _ := trivial

instance : JsonCopy Bool := lossless Bool

instance : JsonCopy Nat := lossless Nat

/-- A type of which some values have no JSON, and the others are kept. -/
@[reducible] def ofEncodable (encodable : α → Bool) : JsonCopy α where
  copy v := if encodable v then some v else none
  Kept v := encodable v = true
  copy_of_kept h := if_pos h
  kept_of_copy h := by
    obtain ⟨he, ⟨⟩⟩ := Option.ite_none_right_eq_some.mp h
    exact he

/-- Only a finite number has JSON. -/
instance : JsonCopy Float64 := ofEncodable Float64.isFinite

end JsonCopy

/-- A Go value that JSON writes as an `α`: one that comes back as it is,
or another one, with what comes back for it, if anything does. -/
inductive Leaf (α : Type) where
  | same (a : α)
  | other (back : Option α)
  deriving DecidableEq

instance {α : Type} : JsonCopy (Leaf α) where
  copy
    | .same a => some (.same a)
    | .other back => back.map .same
  Kept v := ∃ a, v = .same a
  copy_of_kept := by
    rintro _ ⟨a, rfl⟩
    rfl
  kept_of_copy := by
    intro v w h
    cases v with
    | same a =>
      cases h
      exact ⟨a, rfl⟩
    | other back =>
      obtain ⟨a, -, rfl⟩ := Option.map_eq_some_iff.mp h
      exact ⟨a, rfl⟩

/-- The part of a value that JSON leaves out: it comes back empty. -/
structure Unserialized (α : Type) where
  val : List α := []
  deriving DecidableEq

instance {α : Type} : JsonCopy (Unserialized α) where
  copy _ := some {}
  Kept v := v.val = []
  copy_of_kept := by
    rintro ⟨_⟩ rfl
    rfl
  kept_of_copy := by
    rintro _ _ ⟨⟩
    rfl

namespace JsonCopy

variable {α β : Type}

@[simp] theorem kept_same (a : α) : Kept (Leaf.same a) := ⟨a, rfl⟩

/-! ## Lists, pointers, records -/

section Structure

variable [JsonCopy α] [JsonCopy β]

def copyList : List α → Option (List α)
  | [] => some []
  | v :: l => (copy v).bind fun v => (copyList l).map (v :: ·)

instance : JsonCopy (List α) where
  copy := copyList
  Kept l := ∀ v ∈ l, Kept v
  copy_of_kept {l} h := by
    induction l with
    | nil => rfl
    | cons v l ih =>
      obtain ⟨hv, hl⟩ := List.forall_mem_cons.mp h
      simp only [copyList, copy_of_kept hv, ih hl, Option.bind_some, Option.map_some]
  kept_of_copy {l l'} h := by
    induction l generalizing l' with
    | nil =>
      cases h
      exact List.forall_mem_nil _
    | cons v l ih =>
      obtain ⟨w, hw, h⟩ := Option.bind_eq_some_iff.mp h
      obtain ⟨l', hl, rfl⟩ := Option.map_eq_some_iff.mp h
      exact List.forall_mem_cons.mpr ⟨kept_of_copy hw, ih hl⟩

/-- A pointer, which may be nil. -/
instance : JsonCopy (Option α) where
  copy
    | none => some none
    | some v => (copy v).map some
  Kept v := ∀ w, v = some w → Kept w
  copy_of_kept {v} h := by
    cases v with
    | none => rfl
    | some v => simp only [copy_of_kept (h v rfl), Option.map_some]
  kept_of_copy {v w} h := by
    cases v with
    | none =>
      cases h
      exact fun _ hw => by cases hw
    | some v =>
      obtain ⟨u, hu, rfl⟩ := Option.map_eq_some_iff.mp h
      rintro _ ⟨⟩
      exact kept_of_copy hu

/-- Two fields. -/
instance : JsonCopy (α × β) where
  copy v := (copy v.1).bind fun a => (copy v.2).map fun b => (a, b)
  Kept v := Kept v.1 ∧ Kept v.2
  copy_of_kept h := by
    simp only [copy_of_kept h.1, copy_of_kept h.2, Option.bind_some, Option.map_some]
  kept_of_copy h := by
    obtain ⟨a, ha, h⟩ := Option.bind_eq_some_iff.mp h
    obtain ⟨b, hb, rfl⟩ := Option.map_eq_some_iff.mp h
    exact ⟨kept_of_copy ha, kept_of_copy hb⟩

/-- A record is copied as the tuple of its fields. -/
@[reducible] def ofFields (e : α ≃ β) : JsonCopy α where
  copy v := (copy (e v)).map e.symm
  Kept v := Kept (e v)
  copy_of_kept h := by
    rw [copy_of_kept h, Option.map_some, Equiv.symm_apply_apply]
  kept_of_copy h := by
    obtain ⟨b, hb, rfl⟩ := Option.map_eq_some_iff.mp h
    rw [Equiv.apply_symm_apply]
    exact kept_of_copy hb

omit [JsonCopy α] in
theorem kept_fields {e : α ≃ β} {v : α} : (ofFields e).Kept v ↔ Kept (e v) := Iff.rfl

@[simp] theorem kept_prod {a : α} {b : β} : Kept (a, b) ↔ Kept a ∧ Kept b := Iff.rfl

@[simp] theorem kept_nil : Kept ([] : List α) := List.forall_mem_nil _

@[simp] theorem kept_map {γ : Type} {f : γ → α} {l : List γ} :
    Kept (l.map f) ↔ ∀ c ∈ l, Kept (f c) :=
  List.forall_mem_map

@[simp] theorem kept_none : Kept (none : Option α) := fun _ h => by cases h

@[simp] theorem kept_option_map {γ : Type} {f : γ → α} {o : Option γ} :
    Kept (o.map f) ↔ ∀ c ∈ o, Kept (f c) := by
  cases o with
  | none => simp
  | some c => exact ⟨by rintro h _ ⟨⟩; exact h _ rfl, by rintro h _ ⟨⟩; exact h _ rfl⟩

/-! ## Values that JSON keeps or refuses -/

/-- JSON gives back nothing else for the value. -/
def Rigid (v : α) : Prop := ∀ w, copy v = some w → w = v

theorem Rigid.copy_eq_none {v : α} (h : Rigid v) (hv : ¬ Kept v) : copy v = none := by
  cases hcopy : copy v with
  | none => rfl
  | some w =>
    have hw := kept_of_copy hcopy
    rw [h w hcopy] at hw
    exact absurd hw hv

theorem Rigid.of_kept {v : α} (h : Kept v) : Rigid v := by
  intro w hw
  rw [copy_of_kept h] at hw
  exact (Option.some.inj hw).symm

omit [JsonCopy α] in
@[simp] theorem rigid_same (a : α) : Rigid (Leaf.same a) := .of_kept (kept_same a)

omit [JsonCopy α] in
theorem rigid_ofEncodable {encodable : α → Bool} (v : α) :
    @Rigid α (ofEncodable encodable) v := by
  intro w h
  obtain ⟨-, ⟨⟩⟩ := Option.ite_none_right_eq_some.mp h
  rfl

theorem rigid_prod {a : α} {b : β} (ha : Rigid a) (hb : Rigid b) : Rigid (a, b) := by
  intro w h
  obtain ⟨a', hcopy, h⟩ := Option.bind_eq_some_iff.mp h
  obtain ⟨b', hcopy', rfl⟩ := Option.map_eq_some_iff.mp h
  rw [ha a' hcopy, hb b' hcopy']

theorem rigid_list {l : List α} (h : ∀ v ∈ l, Rigid v) : Rigid l := by
  induction l with
  | nil => exact .of_kept kept_nil
  | cons v l ih =>
    intro w hw
    obtain ⟨v', hv, hw⟩ := Option.bind_eq_some_iff.mp hw
    obtain ⟨l', hl, rfl⟩ := Option.map_eq_some_iff.mp hw
    obtain ⟨hhead, htail⟩ := List.forall_mem_cons.mp h
    rw [hhead v' hv, ih htail l' hl]

@[simp] theorem rigid_nil : Rigid ([] : List α) := .of_kept kept_nil

@[simp] theorem rigid_map {γ : Type} {f : γ → α} {l : List γ} (h : ∀ c, Rigid (f c)) :
    Rigid (l.map f) :=
  rigid_list (List.forall_mem_map.mpr fun c _ => h c)

@[simp] theorem rigid_none : Rigid (none : Option α) := .of_kept kept_none

theorem rigid_some {v : α} (h : Rigid v) : Rigid (some v) := by
  intro w hw
  obtain ⟨u, hu, rfl⟩ := Option.map_eq_some_iff.mp hw
  rw [h u hu]

@[simp] theorem rigid_option_map {γ : Type} {f : γ → α} {o : Option γ} (h : ∀ c, Rigid (f c)) :
    Rigid (o.map f) := by
  cases o with
  | none => exact rigid_none
  | some c => exact rigid_some (h c)

omit [JsonCopy α] in
theorem rigid_fields {e : α ≃ β} {v : α} (h : Rigid (e v)) : @Rigid α (ofFields e) v := by
  intro w hw
  obtain ⟨b, hb, rfl⟩ := Option.map_eq_some_iff.mp hw
  rw [h b hb, Equiv.symm_apply_apply]

end Structure

end JsonCopy

end Scintx.Lib
