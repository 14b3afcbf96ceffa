/-
Scintx.Api.Registry — which providers a process loads
(`api/registry.go`, `api/sortkeys.go`).

Factories are registered under an id before the process starts, and
`LoadProviders` calls those that `SCINTX_PROVIDERS` allows, in the order
of their ids. A factory may decline, which is only logged; any other
error ends the load. `SCINTX_FORWARD_ADJUDICATIONS` is a list of the same
form (`internal/scintx/adjudication_forward.go`).

A factory is called once, so it is its answer here.
-/
import Scintx.Api.Matching

namespace Scintx.Api

open Scintx.Lib

structure ProviderCapabilities where
  provider : ProviderRef
  capabilities : List Capability
  acceptsAdjudications : Bool := false
  deriving DecidableEq

/-- A provider as the gateway sees it. -/
structure LoadedProvider where
  id : String
  capabilities : ProviderCapabilities
  /-- It implements `AdjudicationReceiver`. -/
  receivesAdjudications : Bool := false
  deriving DecidableEq

inductive FactoryError where
  /-- `ErrProviderSkipped`. -/
  | skipped (reason : String)
  | failed (text : String)
  deriving DecidableEq

abbrev Factories := GoMap (Except FactoryError LoadedProvider)

/-- An id that is taken is a panic. -/
def registerProviderFactory (factories : Factories) (id : String)
    (factory : Except FactoryError LoadedProvider) : Except String Factories :=
  if (factories.lookup id).isSome then .error ("provider factory already registered: " ++ id)
  else .ok (factories.insert id factory)

/-- The ids of a comma-separated list; `none` where there are none. -/
def parseAllowlist (raw : String) : Option (List String) :=
  let ids := ((splitChar ',' (trimSpaceList raw.toList)).map trimSpaceList).filter (· ≠ [])
  if ids = [] then none else some (ids.map String.ofList)

/-- `providerAllowlist`, over the value of `SCINTX_PROVIDERS`. -/
def providerAllowlist (raw : String) : Option (List String) := parseAllowlist raw

def isAllowed (allow : Option (List String)) (id : String) : Bool :=
  allow.all fun ids => id ∈ ids

/-- The loop over the sorted ids. -/
def loadEach [GoStd] (factories : Factories) : List String → Except String (List LoadedProvider)
  | [] => .ok []
  | id :: ids =>
    match factories.lookup id with
    | none => loadEach factories ids
    | some (.error (.skipped _)) => loadEach factories ids
    | some (.error (.failed e)) => .error ("provider factory " ++ quote id ++ ": " ++ e)
    | some (.ok p) => (loadEach factories ids).map (p :: ·)

def loadProviders [GoStd] (raw : String) (factories : Factories) :
    Except String (List LoadedProvider) :=
  let allow := providerAllowlist raw
  match loadEach factories ((GoMap.sortedKeys factories).filter (isAllowed allow)) with
  | .error e => .error e
  | .ok providers =>
    if allow ≠ none ∧ providers = [] then
      .error "SCINTX_PROVIDERS matched no registered providers"
    else .ok providers

/-! ## What is loaded -/

section Given

variable [GoStd] {factories : Factories}

/-- A load that succeeds has met no failing factory, and takes what the
others returned, in the order of the ids. -/
theorem loadEach_ok_iff {ids : List String} {providers : List LoadedProvider} :
    loadEach factories ids = .ok providers ↔
      (∀ id ∈ ids, ∀ e, factories.lookup id ≠ some (.error (.failed e))) ∧
        providers = ids.filterMap fun id => (factories.lookup id).bind Except.toOption := by
  induction ids generalizing providers with
  | nil => simp [loadEach, eq_comm]
  | cons id ids ih =>
    simp only [loadEach, List.forall_mem_cons, List.filterMap_cons]
    cases hlookup : factories.lookup id with
    | none => simpa [hlookup] using ih
    | some answer =>
      cases answer with
      | error e =>
        cases e with
        | skipped reason => simpa [Except.toOption] using ih
        | failed text => simp
      | ok p =>
        cases hrest : loadEach factories ids with
        | error e =>
          simp only [Except.map, reduceCtorEq, Except.toOption, Option.bind_some, false_iff]
          rintro ⟨⟨-, hnone⟩, -⟩
          obtain ⟨ps, hok⟩ : ∃ ps, loadEach factories ids = .ok ps := ⟨_, ih.mpr ⟨hnone, rfl⟩⟩
          rw [hrest] at hok
          cases hok
        | ok ps =>
          obtain ⟨hnone, rfl⟩ := ih.mp hrest
          simp only [Except.map, Except.ok.injEq, Except.toOption, Option.bind_some]
          constructor
          · rintro rfl
            exact ⟨⟨by simp, hnone⟩, rfl⟩
          · rintro ⟨-, rfl⟩
            rfl

/-- Every factory makes the provider of its id. -/
def WellNamed (factories : Factories) : Prop :=
  ∀ id p, factories.lookup id = some (.ok p) → p.id = id

omit [GoStd] in
theorem WellNamed.register (h : WellNamed factories) {factories' : Factories} {id : String}
    {factory : Except FactoryError LoadedProvider} (hid : ∀ p, factory = .ok p → p.id = id)
    (hreg : registerProviderFactory factories id factory = .ok factories') :
    WellNamed factories' := by
  unfold registerProviderFactory at hreg
  split at hreg <;> cases hreg
  intro k p hlookup
  by_cases hk : k = id
  · subst hk
    rw [Finmap.lookup_insert] at hlookup
    exact hid p (Option.some.inj hlookup)
  · rw [Finmap.lookup_insert_of_ne _ hk] at hlookup
    exact h k p hlookup

omit [GoStd] in
/-- What the loop takes, seen by the ids. -/
theorem map_id_filterMap (hnamed : WellNamed factories) (ids : List String) :
    (ids.filterMap fun id => (factories.lookup id).bind Except.toOption).map (·.id) =
      ids.filter fun id => ((factories.lookup id).bind Except.toOption).isSome := by
  induction ids with
  | nil => rfl
  | cons id ids ih =>
    rw [List.filterMap_cons, List.filter_cons]
    cases hp : (factories.lookup id).bind Except.toOption with
    | none => exact ih
    | some p =>
      obtain ⟨answer, hlookup, hanswer⟩ := Option.bind_eq_some_iff.mp hp
      cases answer with
      | error e => cases hanswer
      | ok q =>
        obtain rfl : q = p := Option.some.inj hanswer
        rw [List.map_cons, ih, hnamed id q hlookup]
        rfl

/-- **A process loads the allowed providers that did not decline, once
each and in ascending order of their ids.** -/
theorem loadProviders_ids {raw : String} {providers : List LoadedProvider}
    (hnamed : WellNamed factories) (h : loadProviders raw factories = .ok providers) :
    (providers.map (·.id)).Pairwise (· < ·) ∧
      ∀ p, p ∈ providers ↔
        factories.lookup p.id = some (.ok p) ∧ isAllowed (providerAllowlist raw) p.id = true := by
  have hload : loadEach factories
      ((GoMap.sortedKeys factories).filter (isAllowed (providerAllowlist raw))) =
        .ok providers := by
    unfold loadProviders at h
    simp only at h
    split at h
    · cases h
    · rename_i hload
      split at h <;> cases h
      exact hload
  obtain ⟨-, rfl⟩ := loadEach_ok_iff.mp hload
  constructor
  · have hspec := GoMap.sortedKeys_spec factories
    have hlt : (GoMap.sortedKeys factories).Pairwise (· < ·) :=
      (hspec.1.pairwise.and hspec.2).imp fun h => lt_of_le_of_ne h.1 h.2
    rw [map_id_filterMap hnamed]
    exact (hlt.filter _).filter _
  · intro p
    simp only [List.mem_filterMap, List.mem_filter, GoMap.mem_sortedKeys, Option.bind_eq_some_iff]
    constructor
    · rintro ⟨id, ⟨-, hallowed⟩, answer, hlookup, hanswer⟩
      cases answer with
      | error e => cases hanswer
      | ok q =>
        obtain rfl : q = p := Option.some.inj hanswer
        rw [hnamed id q hlookup]
        exact ⟨hlookup, hallowed⟩
    · rintro ⟨hlookup, hallowed⟩
      exact ⟨p.id, ⟨Finmap.mem_of_lookup_eq_some hlookup, hallowed⟩, .ok p, hlookup, rfl⟩

end Given

/-- One factory declines, one is not allowed. -/
theorem loadProviders_ids_declined :
    ∃ (factories : Factories) (p : LoadedProvider), WellNamed factories ∧
      @loadProviders GoStd.plain "osv, socket" factories = .ok [p] ∧
      factories.lookup p.id = some (.ok p) ∧
        isAllowed (providerAllowlist "osv, socket") p.id = true := by
  let _ := GoStd.plain
  let made (id : String) : LoadedProvider := ⟨id, ⟨⟨id, "1"⟩, [], false⟩, false⟩
  let skipped : Except FactoryError LoadedProvider := .error (.skipped "no token")
  let first : Factories := (∅ : Factories).insert "osv" (.ok (made "osv"))
  let second : Factories := first.insert "ossindex" (.ok (made "ossindex"))
  have hfirst : WellNamed first :=
    WellNamed.register (fun id p hp => by simp at hp) (fun p hp => Except.ok.inj hp ▸ rfl)
      (rfl : registerProviderFactory ∅ "osv" (.ok (made "osv")) = .ok first)
  have hsecond : WellNamed second :=
    hfirst.register (fun p hp => Except.ok.inj hp ▸ rfl)
      (by decide +kernel :
        registerProviderFactory first "ossindex" (.ok (made "ossindex")) = .ok second)
  have hnamed : WellNamed (second.insert "socket" skipped) :=
    hsecond.register (fun p hp => by simp [skipped] at hp)
      (by decide +kernel : registerProviderFactory second "socket" skipped = .ok _)
  have hload : loadProviders "osv, socket" (second.insert "socket" skipped) =
      .ok [made "osv"] := by
    decide +kernel
  obtain ⟨-, hmem⟩ := loadProviders_ids hnamed hload
  exact ⟨_, made "osv", hnamed, hload, (hmem (made "osv")).mp List.mem_cons_self⟩

end Scintx.Api
