/-
Scintx.Orchestrator.Caching — runs that share the result cache.

`cache.go` says what the cache is for: to avoid asking a provider again
on IDENTICAL inputs. The key of an entry is a digest of the provider,
the capability id, and of the artifact its PURL, its digests and its
content URI. A provider is given more: SBOM and provenance references,
extensions, the whole capability. So the cache answers a question that
only looks like one asked before, with the answer to that one
(`cached_verdict_of_other_sbom`).

The system is any number of runs of `Process` on one world, in any
interleaving. Providers are functions (`Assessor`), up to the ids and
times that they put on a result. With the cache enabled, a lookup is
answered from what the cache was given; with `NopCache`, by a miss. The
ghost fields record for which inputs the cache was given a result, and
which results were stored for which inputs.

What a provider READS of its input is a parameter. As long as every
lookup finds only entries of inputs from which the provider reads the
same, every stored result has the content of the provider's own answer,
which is what `NopCache` stores.
-/
import Scintx.Orchestrator.Results

namespace Scintx.Orchestrator

open Scintx.Lib Scintx.Api Scintx.Store

/-! ## Content of results -/

/-- What a provider says about an artifact. -/
structure Content where
  verdict : Option Verdict
  findings : List Finding
  status : ExecutionStatus
  deriving DecidableEq

def contentOf (r : ProviderResult) : Content :=
  { verdict := r.verdict, findings := r.findings, status := r.execution.status }

/-- The result `r` with another content. -/
def Content.onto (c : Content) (r : ProviderResult) : ProviderResult :=
  { r with
    verdict := c.verdict
    findings := c.findings
    execution := { r.execution with status := c.status } }

def Content.encodable (c : Content) : Bool :=
  finiteScores ((c.findings.flatMap (·.severity)).map (·.score))

/-- What is left of a content after a trip through JSON. -/
def Content.stored : Content → Content :=
  cloneOr Content.encodable (contentOf ProviderResult.zero)

theorem Content.stored_stored (c : Content) : c.stored.stored = c.stored :=
  cloneOr_cloneOr rfl c

theorem contentOf_onto (c : Content) (r : ProviderResult) : contentOf (c.onto r) = c := rfl

theorem contentOf_cloneJSON (r : ProviderResult) :
    contentOf (cloneJSON r) = (contentOf r).stored := by
  change contentOf (if r.encodable = true then r else .zero) =
    if r.encodable = true then contentOf r else contentOf .zero
  split <;> rfl

theorem contentOf_marshalResult (r : ProviderResult) :
    contentOf (marshalResult r) = (contentOf r).stored :=
  contentOf_cloneJSON r

theorem contentOf_materializeCachedResult (cached : ProviderResult) (subID randHex : String)
    (now : Time) (ttl : Duration) :
    contentOf (materializeCachedResult cached subID randHex now ttl) =
      (contentOf cached).stored :=
  contentOf_cloneJSON cached

/-! ## Providers -/

/-- What a provider is asked. -/
structure AssessInput where
  provID : String
  capability : Capability
  artifact : Artifact
  deriving DecidableEq

def AssessInput.of (sel : SelectedProvider) (artifact : Artifact) : AssessInput :=
  { provID := sel.provID, capability := sel.capability, artifact := artifact }

/-- Deterministic providers: the content of an answer is a function of
what is asked. -/
abbrev Assessor := AssessInput → Except String Content

/-- The content of the result that is made of the answer. -/
def Assessor.content (answer : Assessor) (q : AssessInput) : Content :=
  match answer q with
  | .ok c => c
  | .error _ => contentOf (transportError "" 0 "")

theorem contentOf_assessed {env : RunEnv} {subID : String} {i : Nat} {answer : Assessor}
    {q : AssessInput} {dress : ProviderResult}
    (h : env.assess i = (answer q).map (·.onto dress)) :
    contentOf (assessed env subID i) = answer.content q := by
  unfold assessed Assessor.content
  rw [h]
  cases answer q with
  | ok c => exact contentOf_onto c dress
  | error e => rfl

/-! ## Goroutines -/

structure Goroutine where
  input : AssessInput
  pc : GoPc

def Pc.goroutines : Pc → List Goroutine
  | .fanOut _ artifact gos _ => gos.map fun (sel, pc) =>
      { input := .of sel artifact, pc := pc }
  | _ => []

/-- The goroutine that moves, if one does. -/
def Run.moving (ch : Choice) (r : Run) : Option Goroutine :=
  match r.outbox with
  | [] => r.pc.goroutines[ch.goroutine]?
  | _ :: _ => none

theorem Run.mem_of_moving {ch : Choice} {r : Run} {g : Goroutine} (h : r.moving ch = some g) :
    g ∈ r.pc.goroutines := by
  unfold Run.moving at h
  split at h
  · exact List.mem_of_getElem? h
  · cases h

def GoPc.isLookup : GoPc → Bool
  | .lookup => true
  | _ => false

/-- The result that the goroutine holds has content `c`; one from the
cache has been through JSON. -/
def GoPc.Holds (c : Content) : GoPc → Prop
  | .cacheSet res => contentOf res = c
  | .put res => (contentOf res).stored = c.stored
  | _ => True

/-! ## The system -/

/-- A result in the store, and what its provider was asked. -/
structure StoredResult where
  input : AssessInput
  result : ProviderResult

structure CacheState where
  world : World
  runs : List Run := []
  /-- For which inputs the cache was given a result. -/
  given : List AssessInput := []
  filed : List StoredResult := []

inductive CacheAction where
  | start (subID : String)
  /-- A step of run `k`; `dress` is what the provider puts around its
  answer. -/
  | step (k : Nat) (env : RunEnv) (dress : ProviderResult) (ch : Choice)
  /-- The rest of the gateway, which does not use the cache. -/
  | others (w : World)

def givenBy (ch : Choice) : Option Goroutine → List AssessInput
  | some { input := q, pc := .cacheSet _ } => if ch.cacheErr then [] else [q]
  | _ => []

def filedBy (ch : Choice) : Option Goroutine → List StoredResult
  | some { input := q, pc := .put res } =>
    if ch.storeErr = none then [{ input := q, result := cloneJSON res }] else []
  | _ => []

section Given

variable [GoStd]

def AssessInput.key (q : AssessInput) : String :=
  resultCacheKey q.provID q.capability.id q.artifact

/-- The cache and the provider answer the goroutine that moves. -/
def answered (enabled : Bool) (answer : Assessor) (w : World) (g : Option Goroutine)
    (dress : ProviderResult) (env : RunEnv) : RunEnv :=
  match g with
  | none => env
  | some g =>
    { env with
      cacheGet := fun _ => if enabled then w.cache.lookup g.input.key else none
      assess := fun _ => (answer g.input).map (·.onto dress) }

def cacheStep (enabled : Bool) (answer : Assessor) (o : Orchestrator) :
    CacheAction → CacheState → Option CacheState
  | .start subID, s => some { s with runs := s.runs ++ [{ subID := subID }] }
  | .step k env dress ch, s =>
    match s.runs[k]? with
    | none => none
    | some r =>
      let g := r.moving ch
      (r.step o (answered enabled answer s.world g dress env) ch s.world).map fun (w, r) =>
        { world := w
          runs := s.runs.set k r
          given := s.given ++ givenBy ch g
          filed := s.filed ++ filedBy ch g }
  | .others w, s => some { s with world := { w with cache := s.world.cache } }

/-- The runs of a gateway that starts with an empty cache; without
`enabled` it has `NopCache`. -/
def cacheSys (enabled : Bool) (answer : Assessor) (o : Orchestrator) :
    Sys CacheState CacheAction where
  init s := s.world.cache = ∅ ∧ s.runs = [] ∧ s.given = [] ∧ s.filed = []
  step := cacheStep enabled answer o

/-- A lookup finds no entry of an input from which the provider reads
something else. -/
def SameInputs {ρ : Type} (reads : AssessInput → ρ) (s : CacheState) : CacheAction → Prop
  | .step k _ _ ch =>
    ∀ r ∈ s.runs[k]?, ∀ g ∈ r.moving ch, g.pc.isLookup = true →
      ∀ q ∈ s.given, q.key = g.input.key → reads q = reads g.input
  | _ => True

instance {ρ : Type} [DecidableEq ρ] (reads : AssessInput → ρ) (s : CacheState) (a : CacheAction) :
    Decidable (SameInputs reads s a) :=
  match a with
  | .step k _ _ ch => inferInstanceAs (Decidable (∀ r ∈ s.runs[k]?, ∀ g ∈ r.moving ch,
      g.pc.isLookup = true → ∀ q ∈ s.given, q.key = g.input.key → reads q = reads g.input))
  | .start _ | .others _ => inferInstanceAs (Decidable True)

/-! ## Steps -/

variable {o : Orchestrator} {env : RunEnv} {ch : Choice} {subID : String} {w w' : World}

omit [GoStd] in
theorem World.emit_cache (storeErr : Option String) (randHex : String) (now : Time)
    (e : Emission) : (w.emit storeErr randHex now e).cache = w.cache := rfl

/-- A goroutine that is answered with content `c` holds results of that
content, and gives the cache no other. -/
theorem goStep_holds {artifact : Artifact} {i : Nat} {sel : SelectedProvider}
    {ids ids' : List String} {pc pc' : GoPc} {c : Content}
    (h : goStep o env ch subID artifact i sel w ids pc = some (w', ids', pc'))
    (hholds : pc.Holds c)
    (hhit : pc.isLookup = true → ∀ cached, env.cacheGet i = some cached →
      contentOf cached = c.stored)
    (hassess : contentOf (assessed env subID i) = c) :
    pc'.Holds c ∧ (w'.cache = w.cache ∨ ∃ res, pc = .cacheSet res ∧ ch.cacheErr = false ∧
      w'.cache =
        w.cache.insert (resultCacheKey sel.provID sel.capability.id artifact)
          (marshalResult res)) := by
  cases goStep_move h with
  | start | reported => exact ⟨trivial, .inl (World.emit_cache ..)⟩
  | hit hget =>
    refine ⟨?_, .inl rfl⟩
    rw [GoPc.Holds, contentOf_materializeCachedResult, hhit rfl _ hget, Content.stored_stored,
      Content.stored_stored]
  | cacheable => exact ⟨hassess, .inl rfl⟩
  | uncacheable => exact ⟨congrArg Content.stored hassess, .inl rfl⟩
  | cached res hok => exact ⟨congrArg Content.stored hholds, .inr ⟨res, rfl, hok, rfl⟩⟩
  | notCached => exact ⟨congrArg Content.stored hholds, .inl rfl⟩
  | _ => exact ⟨trivial, .inl rfl⟩

/-- A step of a run is the step of a goroutine, or it leaves the cache
alone and at most starts goroutines. -/
inductive GoroutineStep (o : Orchestrator) (env : RunEnv) (ch : Choice) (w : World) (r : Run)
    (w' : World) (r' : Run) : Prop
  | moves {sel : SelectedProvider} {artifact : Artifact} {pc pc' : GoPc} {subID : String}
      {ids ids' : List String}
      (hg : r.moving ch = some { input := .of sel artifact, pc := pc })
      (hgo : goStep o env ch subID artifact ch.goroutine sel w ids pc = some (w', ids', pc'))
      (hgos : r'.pc.goroutines =
        r.pc.goroutines.set ch.goroutine { input := .of sel artifact, pc := pc' })
  | quiet (hdone : ∀ g, r.moving ch = some g → g.pc = .done) (hcache : w'.cache = w.cache)
      (hgos : ∀ g ∈ r'.pc.goroutines, g ∈ r.pc.goroutines ∨ g.pc = .start)

theorem Run.step_goroutines {r r' : Run} (h : r.step o env ch w = some (w', r')) :
    GoroutineStep o env ch w r w' r' := by
  obtain ⟨subID, pc, outbox⟩ := r
  cases Run.step_move h with
  | emit hout =>
    cases hout
    exact .quiet (by simp [Run.moving]) (World.emit_cache ..) fun g hg => .inl hg
  | @call _ pc₁ _ hout hcall =>
    cases hout
    rcases pcStep_cases hcall with hmove | ⟨err, rfl, hloss⟩
    · cases hmove with
      | @goroutine sub artifact gos ids _ sel go _ _ hgo hgostep =>
        have hg : ({ subID := subID, pc := .fanOut sub artifact gos ids } : Run).moving ch =
            some { input := AssessInput.of sel artifact, pc := go } := by
          simp only [Run.moving, Pc.goroutines, List.getElem?_map, hgo, Option.map_some]
        exact .moves hg hgostep (by simp only [Pc.goroutines, List.map_set])
      | join hdone =>
        refine .quiet (fun g hg => ?_) rfl (by simp [Pc.goroutines])
        obtain ⟨⟨sel, go⟩, hmem, rfl⟩ := List.mem_map.mp (List.mem_of_getElem? hg)
        exact hdone _ hmem
      | _ => exact .quiet (by simp [Run.moving, Pc.goroutines]) rfl (by simp [Pc.goroutines])
    · have hnone : pc.goroutines = [] ∧ pc₁.goroutines = [] := by
        cases hloss with
        | @call pc hpc => cases pc <;> first | exact ⟨rfl, rfl⟩ | cases hpc
        | _ => exact ⟨rfl, rfl⟩
      exact .quiet (by simp [Run.moving, hnone.1]) rfl (by simp [hnone.2])

/-! ## The invariant -/

variable {enabled : Bool} {answer : Assessor} {s s' : CacheState}

/-- Whatever is kept of a result has the content of the provider's own
answer. -/
structure CacheInv (answer : Assessor) (s : CacheState) : Prop where
  entries : ∀ (key : String) (v : ProviderResult), s.world.cache.lookup key = some v →
    ∃ q ∈ s.given, q.key = key ∧ contentOf v = (answer.content q).stored
  holds : ∀ r ∈ s.runs, ∀ g ∈ r.pc.goroutines, g.pc.Holds (answer.content g.input)
  filed : ∀ e ∈ s.filed, contentOf e.result = (answer.content e.input).stored

/-- A lookup is answered with the content that the provider would give. -/
theorem CacheInv.hit (h : CacheInv answer s) {ρ : Type} {reads : AssessInput → ρ}
    (hreads : ∀ q q', reads q = reads q' → answer q = answer q') {q : AssessInput}
    (hsame : ∀ q' ∈ s.given, q'.key = q.key → reads q' = reads q) {cached : ProviderResult}
    (hget : s.world.cache.lookup q.key = some cached) :
    contentOf cached = (answer.content q).stored := by
  obtain ⟨q', hq', hkey, hcontent⟩ := h.entries q.key cached hget
  rw [hcontent, Assessor.content, Assessor.content, hreads q' q (hsame q' hq' hkey)]

omit [GoStd] in
theorem content_of_filedBy {g : Goroutine} (h : g.pc.Holds (answer.content g.input))
    {e : StoredResult} (he : e ∈ filedBy ch (some g)) :
    contentOf e.result = (answer.content e.input).stored := by
  obtain ⟨q, pc⟩ := g
  cases pc with
  | put res =>
    simp only [filedBy] at he
    split at he
    · obtain rfl := List.mem_singleton.mp he
      exact (contentOf_cloneJSON res).trans h
    · cases he
  | _ => cases he

/-- The step of a goroutine. -/
theorem CacheInv.moves (h : CacheInv answer s) {k : Nat} {r r' : Run}
    (hk : s.runs[k]? = some r) {sel : SelectedProvider} {artifact : Artifact} {pc pc' : GoPc}
    {i : Nat} {ids ids' : List String}
    (hg : r.moving ch = some { input := .of sel artifact, pc := pc })
    (hgo : goStep o env ch subID artifact i sel s.world ids pc = some (w', ids', pc'))
    (hgos : r'.pc.goroutines =
      r.pc.goroutines.set ch.goroutine { input := .of sel artifact, pc := pc' })
    (hhit : pc.isLookup = true → ∀ cached, env.cacheGet i = some cached →
      contentOf cached = (answer.content (.of sel artifact)).stored)
    (hassess : contentOf (assessed env subID i) = answer.content (.of sel artifact)) :
    CacheInv answer
      { world := w', runs := s.runs.set k r', given := s.given ++ givenBy ch (r.moving ch)
        filed := s.filed ++ filedBy ch (r.moving ch) } := by
  have hg₀ : pc.Holds (answer.content (.of sel artifact)) :=
    h.holds r (List.mem_of_getElem? hk) _ (Run.mem_of_moving hg)
  obtain ⟨hholds, hcache⟩ := goStep_holds hgo hg₀ hhit hassess
  refine ⟨fun key v hv => ?_, fun r₁ hr₁ g₁ hg₁ => ?_, fun e he => ?_⟩
  · have old (hv : s.world.cache.lookup key = some v) :
        ∃ q ∈ s.given ++ givenBy ch (r.moving ch), q.key = key ∧
          contentOf v = (answer.content q).stored := by
      obtain ⟨q, hq, hspec⟩ := h.entries key v hv
      exact ⟨q, List.mem_append_left _ hq, hspec⟩
    rcases hcache with hsame | ⟨res, rfl, herr, hput⟩
    · exact old (hsame ▸ hv)
    · simp only [hput] at hv
      by_cases hkey : key = (AssessInput.of sel artifact).key
      · -- the entry is the one this goroutine puts
        subst hkey
        obtain rfl : marshalResult res = v :=
          Option.some.inj ((Finmap.lookup_insert _).symm.trans hv)
        refine ⟨.of sel artifact, List.mem_append_right _ ?_, rfl, ?_⟩
        · simp [hg, givenBy, herr]
        · rw [contentOf_marshalResult, show contentOf res = _ from hg₀]
      · exact old ((Finmap.lookup_insert_of_ne _ hkey).symm.trans hv)
  · rcases mem_set_cases hr₁ with rfl | hr₁
    · rw [hgos] at hg₁
      rcases mem_set_cases hg₁ with rfl | hg₁
      · exact hholds
      · exact h.holds r (List.mem_of_getElem? hk) g₁ hg₁
    · exact h.holds r₁ hr₁ g₁ hg₁
  · rcases List.mem_append.mp he with he | he
    · exact h.filed e he
    · rw [hg] at he
      exact content_of_filedBy hg₀ he

/-- A step of a run without a goroutine that moves. -/
theorem CacheInv.quiet (h : CacheInv answer s) {k : Nat} {r r' : Run} (hk : s.runs[k]? = some r)
    (hdone : ∀ g, r.moving ch = some g → g.pc = .done) (hcache : w'.cache = s.world.cache)
    (hgos : ∀ g ∈ r'.pc.goroutines, g ∈ r.pc.goroutines ∨ g.pc = .start) :
    CacheInv answer
      { world := w', runs := s.runs.set k r', given := s.given ++ givenBy ch (r.moving ch)
        filed := s.filed ++ filedBy ch (r.moving ch) } := by
  have hnone : givenBy ch (r.moving ch) = [] ∧ filedBy ch (r.moving ch) = [] := by
    cases hg : r.moving ch with
    | none => exact ⟨rfl, rfl⟩
    | some g =>
      obtain ⟨q, pc⟩ := g
      obtain rfl : pc = .done := hdone _ hg
      exact ⟨rfl, rfl⟩
  rw [hnone.1, hnone.2, List.append_nil, List.append_nil]
  refine ⟨fun key v hv => h.entries key v (hcache ▸ hv), fun r₁ hr₁ g₁ hg₁ => ?_, h.filed⟩
  rcases mem_set_cases hr₁ with rfl | hr₁
  · rcases hgos g₁ hg₁ with hold | hstart
    · exact h.holds r (List.mem_of_getElem? hk) g₁ hold
    · rw [hstart]
      trivial
  · exact h.holds r₁ hr₁ g₁ hg₁

/-- With `NopCache` no step has a condition to meet. -/
theorem CacheInv.step (h : CacheInv answer s) {ρ : Type} {reads : AssessInput → ρ}
    (hreads : ∀ q q', reads q = reads q' → answer q = answer q') {a : CacheAction}
    (hsame : enabled = true → SameInputs reads s a)
    (hstep : cacheStep enabled answer o a s = some s') : CacheInv answer s' := by
  cases a with
  | start id =>
    cases hstep
    refine ⟨h.entries, fun r hr g hg => ?_, h.filed⟩
    rcases List.mem_append.mp hr with hr | hr
    · exact h.holds r hr g hg
    · obtain rfl := List.mem_singleton.mp hr
      cases hg
  | others w =>
    cases hstep
    exact ⟨h.entries, h.holds, h.filed⟩
  | step k env dress ch =>
    simp only [cacheStep] at hstep
    split at hstep
    · cases hstep
    · rename_i r hk
      rw [Option.map_eq_some_iff] at hstep
      obtain ⟨⟨w', r'⟩, hrun, heq⟩ := hstep
      cases heq
      cases Run.step_goroutines hrun with
      | quiet hdone hcache hgos => exact h.quiet hk hdone hcache hgos
      | moves hg hgo hgos =>
        rw [hg] at hgo
        refine h.moves hk hg hgo hgos (fun hlookup cached hget => ?_) (contentOf_assessed rfl)
        simp only [answered] at hget
        split at hget
        · rename_i hen
          exact h.hit hreads (hsame hen r hk _ hg hlookup) hget
        · cases hget

theorem cacheInv_reach {ρ : Type} {reads : AssessInput → ρ}
    (hreads : ∀ q q', reads q = reads q' → answer q = answer q')
    (h : (cacheSys enabled answer o).Reach
      (fun s a => enabled = true → SameInputs reads s a) s) : CacheInv answer s := by
  refine h.invariant ?_ fun s a s' hinv hok hstep => hinv.step hreads hok hstep
  rintro s ⟨hcache, hruns, -, hfiled⟩
  refine ⟨fun key v hv => ?_, fun r hr => ?_, fun e he => ?_⟩
  · rw [hcache, Finmap.lookup_empty] at hv
    cases hv
  · rw [hruns] at hr
    cases hr
  · rw [hfiled] at he
    cases he

/-- **The cache is transparent.** As long as no lookup finds an entry of
an input from which the provider reads something else, a result stored
with the cache has the content of any result that `NopCache` leads to
for the same input. -/
theorem cache_transparent {ρ : Type} (reads : AssessInput → ρ)
    (hreads : ∀ q q', reads q = reads q' → answer q = answer q')
    (h : (cacheSys true answer o).Reach (SameInputs reads) s)
    (h' : (cacheSys false answer o).Reach (fun _ _ => True) s')
    {e e' : StoredResult} (he : e ∈ s.filed) (he' : e' ∈ s'.filed) (hinput : e.input = e'.input) :
    contentOf e.result = contentOf e'.result := by
  have hinv := cacheInv_reach hreads (h.mono fun _ _ hok _ => hok)
  have hinv' := cacheInv_reach hreads (h'.mono fun _ _ _ hen => by cases hen)
  rw [hinv.filed e he, hinv'.filed e' he', hinput]

end Given

/-! ## Two submissions of one package -/

/-- A provider that takes a package with an SBOM for a bad one. -/
def sbomAssessor : Assessor := fun q =>
  .ok { verdict := some { value := if q.artifact.sbomRefs = [] then .pass else .fail }
        findings := [], status := .completed }

def packageArtifact (sboms provenance : List String) : Artifact where
  purl := some "pkg:npm/left-pad@1.3.0"
  sbomRefs := sboms.map ({ uri := · })
  provenanceRefs := provenance.map ({ uri := · })

/-- What the provider of `Orchestrator.plain` is asked about it. -/
def packageInput (sboms provenance : List String) : AssessInput where
  provID := "p"
  capability := { id := "scan", version := "1", inputProfiles := [{ id := "any", requires := [] }] }
  artifact := packageArtifact sboms provenance

/-- Two submissions, `sub_a` and `sub_b`. -/
def packageState (a b : Artifact) : CacheState where
  world :=
    { store :=
        (({} : MemoryStore).putSubmission { scanSubmission with artifact := a }).putSubmission
          { scanSubmission with id := "sub_b", artifact := b } }

/-- The run on `sub_a` stores its result, then that on `sub_b` does. -/
def packageSteps : List CacheAction :=
  let steps (k : Nat) (subID : String) : List CacheAction :=
    .start subID :: List.replicate 10
      (.step k (RunEnv.plain subID (.error ""))
        { id := "res_" ++ subID, execution := { status := .completed } } {})
  steps 0 "sub_a" ++ steps 1 "sub_b"

/-- The result stored for `sub_b`, seen through `f`. -/
theorem filed_of_run [GoStd] {enabled : Bool} {ok : CacheState → CacheAction → Prop}
    [∀ s a, Decidable (ok s a)] {o : Orchestrator} {a b : Artifact} {β : Type}
    {f : StoredResult → β} {v : β}
    (h : ((cacheSys enabled sbomAssessor o).run ok packageSteps (packageState a b)).map
      (·.filed[1]?.map f) = some (some v)) :
    ∃ s e, (cacheSys enabled sbomAssessor o).Reach ok s ∧ e ∈ s.filed ∧ f e = v := by
  have h₀ : (cacheSys enabled sbomAssessor o).Reach ok (packageState a b) :=
    .init ⟨rfl, rfl, rfl, rfl⟩
  obtain ⟨s, hs, he⟩ := h₀.of_run_map h
  obtain ⟨e, he, hval⟩ := Option.map_eq_some_iff.mp he
  exact ⟨s, e, hs, List.mem_of_getElem? he, hval⟩

/-- The second submission comes with an SBOM that the provider does not
like, and gets the verdict on the first one, which has none. -/
theorem cached_verdict_of_other_sbom :
    ∃ s s' e e', (@cacheSys GoStd.plain true sbomAssessor (@Orchestrator.plain GoStd.plain)).Reach
        (fun _ _ => True) s ∧
      (@cacheSys GoStd.plain false sbomAssessor (@Orchestrator.plain GoStd.plain)).Reach
        (fun _ _ => True) s' ∧
      e ∈ s.filed ∧ e' ∈ s'.filed ∧ e.input = e'.input ∧
      e.result.verdict = some { value := .pass } ∧
      e'.result.verdict = some { value := .fail } := by
  let _ := GoStd.plain
  have hrun (enabled : Bool) : ((cacheSys enabled sbomAssessor .plain).run (fun _ _ => True)
      packageSteps (packageState (packageArtifact [] []) (packageArtifact ["sbom"] []))).map
        (·.filed[1]?.map fun e => (e.input, e.result.verdict)) =
      some (some (packageInput ["sbom"] [],
        some { value := if enabled then .pass else .fail })) := by
    cases enabled <;> decide +kernel
  obtain ⟨s, e, hs, he, hval⟩ := filed_of_run (hrun true)
  obtain ⟨s', e', hs', he', hval'⟩ := filed_of_run (hrun false)
  obtain ⟨hinput, hverdict⟩ := Prod.mk.inj hval
  obtain ⟨hinput', hverdict'⟩ := Prod.mk.inj hval'
  exact ⟨s, s', e, e', hs, hs', he, he', hinput.trans hinput'.symm, hverdict, hverdict'⟩

/-- Two submissions that differ in their provenance, which the provider
does not look at: the second one is answered from the cache. -/
theorem cache_transparent_hit :
    ∃ s s' e e', (@cacheSys GoStd.plain true sbomAssessor (@Orchestrator.plain GoStd.plain)).Reach
        (@SameInputs GoStd.plain _ fun q => q.artifact.sbomRefs) s ∧
      (@cacheSys GoStd.plain false sbomAssessor (@Orchestrator.plain GoStd.plain)).Reach
        (fun _ _ => True) s' ∧
      e ∈ s.filed ∧ e' ∈ s'.filed ∧ e.input = e'.input ∧
      cacheHit e.result = true ∧ cacheHit e'.result = false ∧
      contentOf e.result = contentOf e'.result := by
  let _ := GoStd.plain
  have hrun : ((cacheSys true sbomAssessor .plain).run
      (SameInputs fun q => q.artifact.sbomRefs)
      packageSteps (packageState (packageArtifact [] []) (packageArtifact [] ["slsa"]))).map
        (·.filed[1]?.map fun e => (e.input, cacheHit e.result)) =
      some (some (packageInput [] ["slsa"], true)) := by
    decide +kernel
  have hrun' : ((cacheSys false sbomAssessor .plain).run (fun _ _ => True)
      packageSteps (packageState (packageArtifact [] []) (packageArtifact [] ["slsa"]))).map
        (·.filed[1]?.map fun e => (e.input, cacheHit e.result)) =
      some (some (packageInput [] ["slsa"], false)) := by
    decide +kernel
  obtain ⟨s, e, hs, he, hval⟩ := filed_of_run hrun
  obtain ⟨s', e', hs', he', hval'⟩ := filed_of_run hrun'
  obtain ⟨hinput, hhit⟩ := Prod.mk.inj hval
  obtain ⟨hinput', hhit'⟩ := Prod.mk.inj hval'
  have hsame := hinput.trans hinput'.symm
  refine ⟨s, s', e, e', hs, hs', he, he', hsame, hhit, hhit', ?_⟩
  refine cache_transparent (fun q => q.artifact.sbomRefs) (fun q q' hq => ?_) hs hs' he he' hsame
  simp only [sbomAssessor, hq]

end Scintx.Orchestrator
