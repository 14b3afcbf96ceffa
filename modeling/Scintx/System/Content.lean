/-
Scintx.System.Content — the content that providers are given, under
uploads by any clients.

Uploads go into the store that the runs read, at any time. An artifact is
filed under the digest of its bytes and no call files it under another,
so whatever else is uploaded in the meantime, a submission that names a
local blob has its providers called with bytes of exactly that digest,
and is failed if there are none. A `Host` is a gateway seen this way: its
store, and the artifacts that its runs are having assessed.

The digest under `digests` of the submission is another matter: nothing
compares it with the content.
-/
import Scintx.Server.Upload
import Scintx.System.Identity

namespace Scintx.System

open Scintx.Lib Scintx.Api Scintx.Auth Scintx.Store Scintx.Orchestrator Scintx.Workers
open Scintx.Server

/-! ## Stores -/

section Stores

variable [GoStd]

/-- Artifacts are filed under their digests. -/
def ContentAddressed (s : MemoryStore) : Prop :=
  ∀ digest content, s.getArtifact digest = some content → digest = artifactDigest content

theorem contentAddressed_of_artifacts {s s' : MemoryStore} (h : ContentAddressed s)
    (hsame : s'.artifacts = s.artifacts) : ContentAddressed s' := by
  intro digest content hget
  rw [MemoryStore.getArtifact, hsame] at hget
  exact h digest content hget

theorem contentAddressed_uploadArtifact {s : MemoryStore} (h : ContentAddressed s) (raw : String)
    (storeErr : Option String) (r : Inbound) :
    ContentAddressed (uploadArtifact raw storeErr s r).2 := by
  rw [uploadArtifact, uploadWithin]
  split
  · exact h
  · rename_i body hbody
    split
    · exact h
    · intro digest content hget
      simp only [MemoryStore.getArtifact, MemoryStore.putArtifact] at hget
      by_cases hd : digest = artifactDigest body
      · rw [hd, Finmap.lookup_insert, Option.some.injEq] at hget
        rw [hd, hget]
      · rw [Finmap.lookup_insert_of_ne _ hd] at hget
        exact h digest content hget

/-- The artifact of a submission as its providers get it: in canonical
form, and with the content that it names. -/
structure Hydrated (sub : Submission) (artifact : Artifact) : Prop where
  fields : { artifact with content := [] } = { canonicalArtifact sub.artifact with content := [] }
  content : ∀ ref digest, artifact.contentRef = some ref → localBlobDigest ref.uri = some digest →
    artifactDigest artifact.content = digest

theorem hydrated_of_hydrateLocalBlob {s : MemoryStore} (h : ContentAddressed s)
    {storeErr : Option String} {sub : Submission} {artifact : Artifact}
    (hok : hydrateLocalBlob s storeErr (canonicalArtifact sub.artifact) = .ok artifact) :
    Hydrated sub artifact := by
  unfold hydrateLocalBlob at hok
  split at hok
  · rename_i hnone
    cases hok
    exact ⟨rfl, fun ref digest href => by rw [hnone] at href; cases href⟩
  · rename_i ref href
    split at hok
    · rename_i hexternal
      cases hok
      refine ⟨rfl, fun ref' digest href' hlocal => ?_⟩
      obtain rfl := Option.some.inj (href.symm.trans href')
      rw [hexternal] at hlocal
      cases hlocal
    · rename_i digest hdigest
      split at hok
      · cases hok
      · split at hok
        · cases hok
        · rename_i body hbody
          cases hok
          refine ⟨rfl, fun ref' digest' href' hlocal => ?_⟩
          obtain rfl := Option.some.inj (href.symm.trans href')
          obtain rfl := Option.some.inj (hdigest.symm.trans hlocal)
          exact (h digest body hbody).symm

/-- The reference that an upload answers with names what was uploaded. -/
theorem localBlobDigest_blobURN (body : List UInt8) :
    localBlobDigest (blobURN (artifactDigest body)) = some (artifactDigest body) := by
  have hne : artifactDigest body ≠ "" := by
    intro hempty
    have hlist := congrArg String.toList hempty
    simp [artifactDigest] at hlist
  have hspace : ∀ c ∈ (blobURN (artifactDigest body)).toList, isSpace c = false := by
    intro c hc
    simp only [blobURN, artifactDigest, String.toList_append, List.mem_append] at hc
    rcases hc with hc | hc | hc
    · exact forall_mem_of_all (p := fun c => isSpace c = false) (by decide) c hc
    · exact forall_mem_of_all (p := fun c => isSpace c = false) (by decide) c hc
    · obtain ⟨n, hn, rfl⟩ := mem_hexEncode hc
      exact isSpace_hexDigit hn
  rw [localBlobDigest, trimSpace_eq_self hspace, blobURN, hasPrefix_append, trimPrefix_append]
  simp [hne]

/-- A submission that names an upload has the uploaded bytes assessed, as
far as SHA-256 can tell. -/
theorem Hydrated.uploaded {sub : Submission} {artifact : Artifact} (h : Hydrated sub artifact)
    {ref : ResourceReference} (href : artifact.contentRef = some ref) {body : List UInt8}
    (huri : ref.uri = blobURN (artifactDigest body)) :
    GoStd.sha256 artifact.content = GoStd.sha256 body := by
  have hlocal : localBlobDigest ref.uri = some (artifactDigest body) := by
    rw [huri, localBlobDigest_blobURN]
  have hdigest := h.content ref _ href hlocal
  rw [artifactDigest, artifactDigest] at hdigest
  exact hexEncode_injective (String.append_right_inj _ |>.mp hdigest)

end Stores

/-! ## Gateways with uploads -/

structure Host (σ α : Type) where
  step : α → σ → Option σ
  store : σ → MemoryStore
  withStore : MemoryStore → σ → σ
  /-- The submissions in the fan-out, and the artifacts that the
  goroutines have. -/
  assessing : σ → List (Submission × Artifact)

inductive ContentAction (α : Type) where
  | gateway (a : α)
  /-- `raw` is the value of `SCINTX_MAX_ARTIFACT_BYTES`. -/
  | upload (raw : String) (storeErr : Option String) (r : Inbound)

section Hosts

variable [GoStd] {σ α : Type}

def Host.contentStep (g : Host σ α) : ContentAction α → σ → Option σ
  | .gateway a, s => g.step a s
  | .upload raw storeErr r, s => some (g.withStore (uploadArtifact raw storeErr (g.store s) r).2 s)

/-- A gateway that starts with nothing in the fan-out, on a store whose
artifacts are filed under their digests. -/
def Host.contentSys (g : Host σ α) : Sys σ (ContentAction α) where
  init s := g.assessing s = [] ∧ ContentAddressed (g.store s)
  step := g.contentStep

/-- The steps of a gateway write no artifact, and what they have assessed
they have loaded. -/
structure Host.Lawful (g : Host σ α) : Prop where
  store_withStore : ∀ m s, g.store (g.withStore m s) = m
  assessing_withStore : ∀ m s, g.assessing (g.withStore m s) = g.assessing s
  artifacts : ∀ a s s', g.step a s = some s' → (g.store s').artifacts = (g.store s).artifacts
  assessing : ∀ a s s', g.step a s = some s' → ∀ x ∈ g.assessing s', x ∈ g.assessing s ∨
    ∃ storeErr, hydrateLocalBlob (g.store s) storeErr (canonicalArtifact x.1.artifact) = .ok x.2

theorem Host.Lawful.hydrated {g : Host σ α} (hg : g.Lawful) {ok : σ → ContentAction α → Prop}
    {s : σ} (h : g.contentSys.Reach ok s) :
    ContentAddressed (g.store s) ∧ ∀ x ∈ g.assessing s, Hydrated x.1 x.2 := by
  refine h.invariant (I := fun s => ContentAddressed (g.store s) ∧
    ∀ x ∈ g.assessing s, Hydrated x.1 x.2) (fun s hinit => ?_) fun s a s' hinv _ hs => ?_
  · exact ⟨hinit.2, by simp [hinit.1]⟩
  · cases a with
    | gateway a =>
      refine ⟨contentAddressed_of_artifacts hinv.1 (hg.artifacts a s s' hs), fun x hx => ?_⟩
      rcases hg.assessing a s s' hs x hx with hold | ⟨storeErr, hok⟩
      · exact hinv.2 x hold
      · exact hydrated_of_hydrateLocalBlob hinv.1 hok
    | upload raw storeErr r =>
      obtain rfl := Option.some.inj hs
      rw [hg.store_withStore, hg.assessing_withStore]
      exact ⟨contentAddressed_uploadArtifact hinv.1 raw storeErr r, hinv.2⟩

end Hosts

/-! ## Local mode -/

/-- What the goroutines of a run have. -/
def Pc.assessing : Pc → Option (Submission × Artifact)
  | .fanOut sub artifact _ _ => some (sub, artifact)
  | _ => none

def LocalThread.assessing : LocalThread → Option (Submission × Artifact)
  | .worker r _ => Pc.assessing r.pc
  | _ => none

section Threads

variable {θ β : Type} {f : θ → Option β} {ts : List θ} {t t' : θ} {x : β}

/-- A thread that is spawned has nothing. -/
theorem mem_filterMap_spawn (hnone : f t = none) (h : x ∈ (ts ++ [t]).filterMap f) :
    x ∈ ts.filterMap f := by
  simpa [hnone] using h

/-- What the threads have after a call of one of them: it had that before,
or `P` says how it came by it. -/
theorem mem_filterMap_call {i : Nat} {P : Prop} (h : x ∈ (ts.set i t').filterMap f)
    (hcall : f t' = some x → x ∈ ts.filterMap f ∨ P) : x ∈ ts.filterMap f ∨ P := by
  obtain ⟨u, hu, hx⟩ := List.mem_filterMap.mp h
  rcases mem_set_cases hu with rfl | hold
  · exact hcall hx
  · exact .inl (List.mem_filterMap.mpr ⟨u, hold, hx⟩)

end Threads

section Given

variable [GoStd] {o : Orchestrator} {env : RunEnv} {ch : Choice}

/-- Only the step that loads the content enters the fan-out. -/
theorem pcStep_assessing {subID : String} {w w' : World} {pc pc' : Pc} {out : List Emission}
    (h : pcStep o env ch subID w pc = some (w', pc', out)) {x : Submission × Artifact}
    (hx : Pc.assessing pc' = some x) :
    Pc.assessing pc = some x ∨ ∃ storeErr,
      hydrateLocalBlob w.store storeErr (canonicalArtifact x.1.artifact) = .ok x.2 := by
  rcases pcStep_cases h with hmove | ⟨err, -, hloss⟩
  · cases hmove with
    | select hyd =>
      cases hx
      exact .inr ⟨_, hyd⟩
    | goroutine hgo hstep => exact .inl hx
    | _ => cases hx
  · cases hloss <;> cases hx

theorem Run.step_assessing {w w' : World} {r r' : Run} (h : r.step o env ch w = some (w', r'))
    {x : Submission × Artifact} (hx : Pc.assessing r'.pc = some x) :
    Pc.assessing r.pc = some x ∨ ∃ storeErr,
      hydrateLocalBlob w.store storeErr (canonicalArtifact x.1.artifact) = .ok x.2 := by
  cases Run.step_move h with
  | emit => exact .inl hx
  | call _ hcall => exact pcStep_assessing hcall hx

def localHost (o : Orchestrator) : Host LocalState LocalAction where
  step := localStep o
  store s := s.world.store
  withStore store s := { s with world := { s.world with store := store } }
  assessing s := s.threads.filterMap LocalThread.assessing

theorem localHost_lawful : (localHost o).Lawful where
  store_withStore _ _ := rfl
  assessing_withStore _ _ := rfl
  artifacts a s s' hs := by
    cases localStep_move hs with
    | handler hi hcall =>
      exact (Handler.step_copies localDispatcher_writesJobs hcall).artifacts
    | run hi hcall => exact (Run.step_copies hcall).artifacts
    | _ => rfl
  assessing a s s' hs x hx := by
    cases localStep_move hs with
    | refused | create | resume | adjudicate | take => exact .inl (mem_filterMap_spawn rfl hx)
    | handler | finish => exact mem_filterMap_call hx fun hnew => by cases hnew
    | run hi hcall =>
      refine mem_filterMap_call hx fun hnew =>
        (Run.step_assessing hcall hnew).imp_left fun hsame => ?_
      exact List.mem_filterMap.mpr ⟨_, List.mem_of_getElem? hi, hsame⟩
    | close => exact .inl hx

/-- **Providers are given the bytes that the submission names**, in local
mode, whatever is uploaded while the runs go on. -/
theorem local_content_hydrated {ok : LocalState → ContentAction LocalAction → Prop}
    {s : LocalState} (h : (localHost o).contentSys.Reach ok s) {r : Run} {env : RunEnv}
    (hworker : .worker r env ∈ s.threads) {sub : Submission} {artifact : Artifact}
    (hfan : Pc.assessing r.pc = some (sub, artifact)) :
    Hydrated sub artifact ∧ ∀ ref body, artifact.contentRef = some ref →
      ref.uri = blobURN (artifactDigest body) →
        GoStd.sha256 artifact.content = GoStd.sha256 body := by
  have hhyd : Hydrated sub artifact :=
    (localHost_lawful.hydrated h).2 (sub, artifact)
      (List.mem_filterMap.mpr ⟨.worker r env, hworker, hfan⟩)
  exact ⟨hhyd, fun ref body href huri => hhyd.uploaded href huri⟩

end Given

/-- A submission of content by reference. -/
def uploadedRequest (uri : String) : CreateRequest where
  artifact := { digests := Finmap.singleton "sha256" "0102", contentRef := some { uri := uri } }
  requestedCapabilities := ["scan"]

/-- An upload, a submission that names it, another upload, and the run up
to its fan-out. -/
theorem local_content_hydrated_uploaded :
    ∃ (s : LocalState) (r : Run) (env : RunEnv) (sub : Submission) (artifact : Artifact),
      (@Host.contentSys GoStd.plain _ _
          (@localHost GoStd.plain (@Orchestrator.plain GoStd.plain))).Reach (fun _ _ => True) s ∧
        .worker r env ∈ s.threads ∧ Pc.assessing r.pc = some (sub, artifact) ∧
        artifact.content = [1, 2] ∧ @Hydrated GoStd.plain sub artifact := by
  let _ := GoStd.plain
  let host := localHost Orchestrator.plain
  let acts : List (ContentAction LocalAction) :=
    [.upload "" none (tokenUpload [1, 2]),
      .gateway (.create (uploadedRequest "urn:scintx:blob:sha256:0102") "h" "sub_a" 0),
      .gateway (.handler 0 {}), .gateway (.handler 0 {}), .gateway (.handler 0 {}),
      .gateway (.take 0 scanEnv), .upload "" none (tokenUpload [3])] ++
      List.replicate 5 (.gateway (.run 1 {}))
  have hrun : (host.contentSys.run (fun _ _ => True) acts .fresh).map (fun s =>
      ((s.threads[1]?).bind LocalThread.assessing).map (·.2.content)) = some (some [1, 2]) := by
    decide +kernel
  have h0 : host.contentSys.Reach (fun _ _ => True) .fresh :=
    .init ⟨rfl, fun digest content hget => by cases hget⟩
  obtain ⟨s, hs, hv⟩ := h0.of_run_map hrun
  obtain ⟨x, hx, hcontent⟩ := Option.map_eq_some_iff.mp hv
  obtain ⟨t, ht, hfan⟩ := Option.bind_eq_some_iff.mp hx
  cases t with
  | worker r env =>
    have hworker : .worker r env ∈ s.threads := List.mem_of_getElem? ht
    exact ⟨s, r, env, x.1, x.2, hs, hworker, hfan, hcontent,
      (local_content_hydrated hs hworker hfan).1⟩
  | handler h => cases hfan
  | ended => cases hfan

/-! ## Queue mode -/

def QueueThread.assessing : QueueThread → Option (Submission × Artifact)
  | .worker _ _ (.processing r _) => Pc.assessing r.pc
  | _ => none

section Given

variable [GoStd] {o : Orchestrator} {env : RunEnv} {ch : Choice}

def queueHost (o : Orchestrator) : Host QueueState QueueAction where
  step := queueStep o
  store := QueueState.store
  withStore store s := { s with store := store }
  assessing s := s.threads.filterMap QueueThread.assessing

/-- A worker enters the fan-out of a run by a step of that run. -/
theorem WorkerPc.step_assessing {p : QueuePool} {owner : String} {g n : Nat} {w w' : World}
    {pc pc' : WorkerPc} (h : pc.step o p owner env ch w = some (w', pc'))
    {x : Submission × Artifact} (hx : QueueThread.assessing (.worker g n pc') = some x) :
    QueueThread.assessing (.worker g n pc) = some x ∨ ∃ storeErr,
      hydrateLocalBlob w.store storeErr (canonicalArtifact x.1.artifact) = .ok x.2 := by
  cases WorkerPc.step_move h with
  | run hcall => exact Run.step_assessing hcall hx
  | _ => cases hx

theorem queueHost_lawful : (queueHost o).Lawful where
  store_withStore _ _ := rfl
  assessing_withStore _ _ := rfl
  artifacts a s s' hs := by
    cases queueStep_call hs with
    | handler hi hgw hcall =>
      exact (Handler.step_copies queueDispatcher_writesJobs hcall).artifacts
    | worker hi hgw hcall => exact (WorkerPc.step_copies hcall).artifacts
    | _ => rfl
  assessing a s s' hs x hx := by
    cases queueStep_call hs with
    | refused | create | resume | adjudicate | start => exact .inl (mem_filterMap_spawn rfl hx)
    | boot | close | heartbeat => exact .inl hx
    | handler | crash => exact mem_filterMap_call hx fun hnew => by cases hnew
    | worker hi hgw hcall =>
      refine mem_filterMap_call hx fun hnew =>
        (WorkerPc.step_assessing hcall hnew).imp_left fun hsame => ?_
      exact List.mem_filterMap.mpr ⟨_, List.mem_of_getElem? hi, hsame⟩

/-- **Providers are given the bytes that the submission names**, in queue
mode, by every process on the store. -/
theorem queue_content_hydrated {ok : QueueState → ContentAction QueueAction → Prop}
    {s : QueueState} (h : (queueHost o).contentSys.Reach ok s) {g n : Nat} {r : Run}
    {env : RunEnv} (hworker : .worker g n (.processing r env) ∈ s.threads) {sub : Submission}
    {artifact : Artifact} (hfan : Pc.assessing r.pc = some (sub, artifact)) :
    Hydrated sub artifact ∧ ∀ ref body, artifact.contentRef = some ref →
      ref.uri = blobURN (artifactDigest body) →
        GoStd.sha256 artifact.content = GoStd.sha256 body := by
  have hhyd : Hydrated sub artifact :=
    (queueHost_lawful.hydrated h).2 (sub, artifact)
      (List.mem_filterMap.mpr ⟨.worker g n (.processing r env), hworker, hfan⟩)
  exact ⟨hhyd, fun ref body href huri => hhyd.uploaded href huri⟩

end Given

/-- The same in queue mode, with one worker. -/
theorem queue_content_hydrated_uploaded :
    ∃ (s : QueueState) (g n : Nat) (r : Run) (env : RunEnv) (sub : Submission)
        (artifact : Artifact),
      (@Host.contentSys GoStd.plain _ _
          (@queueHost GoStd.plain (@Orchestrator.plain GoStd.plain))).Reach (fun _ _ => True) s ∧
        .worker g n (.processing r env) ∈ s.threads ∧
        Pc.assessing r.pc = some (sub, artifact) ∧ artifact.content = [1, 2] ∧
        @Hydrated GoStd.plain sub artifact := by
  let _ := GoStd.plain
  let host := queueHost Orchestrator.plain
  let acts : List (ContentAction QueueAction) :=
    [.gateway (.boot {} "w" "src"), .upload "" none (tokenUpload [1, 2]),
      .gateway (.create 0 (uploadedRequest "urn:scintx:blob:sha256:0102") "h" "sub_a" 0),
      .gateway (.handler 0 {}), .gateway (.handler 0 {}), .gateway (.handler 0 {}),
      .gateway (.start 0 0), .gateway (.worker 1 scanEnv {}),
      .gateway (.worker 1 scanEnv { order := ["sub_a"] })] ++
      List.replicate 6 (.gateway (.worker 1 scanEnv {}))
  have hrun : (host.contentSys.run (fun _ _ => True) acts
      { store := {}, gateways := [], threads := [], issued := [] }).map (fun s =>
        ((s.threads[1]?).bind QueueThread.assessing).map (·.2.content)) = some (some [1, 2]) := by
    decide +kernel
  have h0 : host.contentSys.Reach (fun _ _ => True)
      { store := {}, gateways := [], threads := [], issued := [] } :=
    .init ⟨rfl, fun digest content hget => by cases hget⟩
  obtain ⟨s, hs, hv⟩ := h0.of_run_map hrun
  obtain ⟨x, hx, hcontent⟩ := Option.map_eq_some_iff.mp hv
  obtain ⟨t, ht, hfan⟩ := Option.bind_eq_some_iff.mp hx
  cases t with
  | worker g n pc =>
    cases pc with
    | processing r env =>
      have hworker : .worker g n (.processing r env) ∈ s.threads := List.mem_of_getElem? ht
      exact ⟨s, g, n, r, env, x.1, x.2, hs, hworker, hfan, hcontent,
        (queue_content_hydrated hs hworker hfan).1⟩
    | _ => cases hfan
  | handler g h => cases hfan
  | ended => cases hfan

end Scintx.System
