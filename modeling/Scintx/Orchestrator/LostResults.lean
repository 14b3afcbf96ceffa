/-
Scintx.Orchestrator.LostResults — decisions of runs whose results could
not all be stored.

A goroutine whose `PutResult` fails logs the error and returns. Nothing
else notices: the run goes on, reads back what the store has, and asks
the policy about that. A result that is not there does not count as one
that failed, so the loss of the only result that speaks against an
artifact turns a deny into an allow (`lost_fail_is_allowed`).

Three layers. `Orchestrator.decisionOn` is the decision of the policy on
a list of results, as the run comes to it; it is as strict as the
strictest of the `contributions` of the results and of the findings it
weighs. `Files` and `Pc.Weighs` follow one run through any failures of
store calls: the results in the store are those of the start,
overwritten by the outcomes of the goroutines in `kept`, and the
decision is that on the results listed from there. The main result
compares it with the decision on ALL outcomes, piece by piece of what
the list lacks.
-/
import Scintx.Orchestrator.Failures
import Scintx.Policy.MonotoneTheorems

set_option linter.dupNamespace false

namespace Scintx.Orchestrator

open Scintx.Lib Scintx.Api Scintx.Store Scintx.Policy

/-! ## The decision on a list of results -/

/-- What the policy decides on `results`. -/
def Orchestrator.decisionOn (o : Orchestrator) (env : RunEnv) (sub : Submission)
    (results : List ProviderResult) : Except String PolicyDecision :=
  o.evaluate env.eval sub results (o.merged env sub results)

/-- What the rules for findings are matched against: the findings of the
results, or the merged ones. -/
abbrev Weighed := Finding ⊕ MergedFinding

def Orchestrator.weighed (o : Orchestrator) (env : RunEnv) (sub : Submission)
    (results : List ProviderResult) : List Weighed :=
  match o.merged env sub results with
  | none => (results.flatMap rawFindings).map .inl
  | some m => m.findings.map .inr

/-- The decisions that follow from the status and the verdict of a
result. -/
def statusContribution (spec : Spec) (r : ProviderResult) : List PolicyDecisionValue :=
  executionContribution spec r ++ verdictContribution spec r

section Given

variable [GoStd] {o : Orchestrator} {env : RunEnv}

/-- The decisions that follow from one finding. -/
def Weighed.contribution (spec : Spec) : Weighed → List PolicyDecisionValue
  | .inl f => ruleContribution spec f
  | .inr mf => findingContribution spec mf

def Orchestrator.contributions (o : Orchestrator) (env : RunEnv) (spec : Spec) (sub : Submission)
    (results : List ProviderResult) : List PolicyDecisionValue :=
  results.flatMap (statusContribution spec) ++
    (o.weighed env sub results).flatMap (Weighed.contribution spec)

theorem mem_rawContributions {spec : Spec} {results : List ProviderResult}
    {d : PolicyDecisionValue} :
    d ∈ results.flatMap (rawContribution spec) ↔
      d ∈ results.flatMap (statusContribution spec) ++
        ((results.flatMap rawFindings).map Sum.inl).flatMap (Weighed.contribution spec) := by
  simp only [rawContribution, statusContribution, List.mem_append, List.mem_flatMap, List.mem_map]
  constructor
  · rintro ⟨r, hr, hd | ⟨f, hf, hd⟩⟩
    · exact .inl ⟨r, hr, hd⟩
    · exact .inr ⟨.inl f, ⟨f, ⟨r, hr, hf⟩, rfl⟩, hd⟩
  · rintro (⟨r, hr, hd⟩ | ⟨-, ⟨f, ⟨r, hr, hf⟩, rfl⟩, hd⟩)
    · exact ⟨r, hr, .inl hd⟩
    · exact ⟨r, hr, .inr ⟨f, hf, hd⟩⟩

theorem mem_mergedContributions {spec : Spec} {results : List ProviderResult} {m : MergedResult}
    {d : PolicyDecisionValue} :
    d ∈ mergedContributions spec results m ↔
      d ∈ results.flatMap (statusContribution spec) ++
        (m.findings.map Sum.inr).flatMap (Weighed.contribution spec) := by
  simp only [mergedContributions, statusContribution, List.mem_append, List.mem_flatMap,
    List.mem_map, and_or_left, exists_or]
  refine or_congr_right ⟨?_, ?_⟩
  · rintro ⟨mf, hmf, hd⟩
    exact ⟨.inr mf, ⟨mf, hmf, rfl⟩, hd⟩
  · rintro ⟨-, ⟨mf, hmf, rfl⟩, hd⟩
    exact ⟨mf, hmf, hd⟩

omit [GoStd] in
theorem rank_foldl_congr {ds ds' : List PolicyDecisionValue} (h : ∀ d, d ∈ ds ↔ d ∈ ds') :
    rank (ds.foldl escalate .allow) = rank (ds'.foldl escalate .allow) :=
  Nat.le_antisymm
    (Covered.rank_foldl_le (fun d hd => ⟨d, (h d).mp hd, Nat.le_refl _⟩) .allow)
    (Covered.rank_foldl_le (fun d hd => ⟨d, (h d).mpr hd, Nat.le_refl _⟩) .allow)

/-- The decision is as strict as the strictest contribution. -/
theorem decisionOn_rank (env : RunEnv) {e : Policy.Engine} (hpolicy : o.policy = yamlEngine e)
    {sub : Submission} {doc : Document} (hdoc : e.lookup sub = .ok doc)
    (results : List ProviderResult) :
    ∃ dec, o.decisionOn env sub results = .ok dec ∧ rank dec.decision =
      rank ((o.contributions env doc.spec sub results).foldl escalate .allow) := by
  unfold Orchestrator.decisionOn Orchestrator.evaluate Orchestrator.contributions
    Orchestrator.weighed
  rw [hpolicy]
  cases o.merged env sub results with
  | none =>
    refine ⟨evaluateDoc doc sub results env.eval, ?_, ?_⟩
    · simp only [yamlEngine, Engine.evaluate, hdoc]
      rfl
    · rw [evaluateDoc_decision]
      exact rank_foldl_congr fun d => mem_rawContributions
  | some m =>
    refine ⟨evaluateMergedDoc doc sub results m env.eval, ?_, ?_⟩
    · simp only [yamlEngine, Engine.evaluateMerged, hdoc]
      rfl
    · rw [evaluateMergedDoc_decision]
      exact rank_foldl_congr fun d => mem_mergedContributions

/-- A decision needs the document. -/
theorem lookup_of_decisionOn {e : Policy.Engine} (hpolicy : o.policy = yamlEngine e)
    {sub : Submission} {results : List ProviderResult} {dec : PolicyDecision}
    (h : o.decisionOn env sub results = .ok dec) : ∃ doc, e.lookup sub = .ok doc := by
  unfold Orchestrator.decisionOn Orchestrator.evaluate at h
  rw [hpolicy] at h
  cases hdoc : e.lookup sub with
  | ok doc => exact ⟨doc, rfl⟩
  | error msg =>
    cases hm : o.merged env sub results with
    | none =>
      simp only [hm, yamlEngine, Engine.evaluate, hdoc] at h
      cases h
    | some m =>
      simp only [hm, yamlEngine, Engine.evaluateMerged, hdoc] at h
      cases h

omit [GoStd] in
/-- One strictest contribution is at most another exactly when every
contribution but `allow` is matched. -/
theorem rank_foldl_le_iff {ds ds' : List PolicyDecisionValue} :
    rank (ds.foldl escalate .allow) ≤ rank (ds'.foldl escalate .allow) ↔
      Covered ds (.allow :: ds') := by
  constructor
  · intro h d hd
    have hle := le_rank_foldl_escalate.mp
      (Nat.le_trans (le_rank_foldl_escalate.mpr (.inr ⟨d, hd, Nat.le_refl _⟩)) h)
    rcases hle with hallow | ⟨d', hd', hle⟩
    · exact ⟨.allow, List.mem_cons_self, hallow⟩
    · exact ⟨d', List.mem_cons_of_mem _ hd', hle⟩
  · intro h
    exact h.rank_foldl_le .allow

omit [GoStd] in
theorem covered_append {ds ds' es : List PolicyDecisionValue} :
    Covered (ds ++ ds') es ↔ Covered ds es ∧ Covered ds' es := by
  simp only [Covered, List.mem_append, or_imp, forall_and]

omit [GoStd] in
/-- Pieces that are on both sides match themselves. -/
theorem covered_flatMap {α : Type} {f : α → List PolicyDecisionValue} {xs ys : List α}
    {es : List PolicyDecisionValue} (hys : ∀ d ∈ ys.flatMap f, d ∈ es) :
    Covered (xs.flatMap f) es ↔ ∀ x ∈ xs, x ∉ ys → Covered (f x) es := by
  constructor
  · intro h x hx _ d hd
    exact h d (List.mem_flatMap.mpr ⟨x, hx, hd⟩)
  · intro h d hd
    obtain ⟨x, hx, hd⟩ := List.mem_flatMap.mp hd
    by_cases hxy : x ∈ ys
    · exact ⟨d, hys d (List.mem_flatMap.mpr ⟨x, hxy, hd⟩), Nat.le_refl _⟩
    · exact h x hx hxy d hd

/-- The contributions of one list are matched by those of another exactly
when those of its pieces are that the other list lacks. -/
theorem covered_contributions {spec : Spec} {sub : Submission}
    {complete results : List ProviderResult} :
    Covered (o.contributions env spec sub complete)
        (.allow :: o.contributions env spec sub results) ↔
      (∀ r ∈ complete, r ∉ results → Covered (statusContribution spec r)
        (.allow :: o.contributions env spec sub results)) ∧
      (∀ x ∈ o.weighed env sub complete, x ∉ o.weighed env sub results →
        Covered (x.contribution spec) (.allow :: o.contributions env spec sub results)) := by
  have hstatus (d : PolicyDecisionValue) (hd : d ∈ results.flatMap (statusContribution spec)) :
      d ∈ .allow :: o.contributions env spec sub results :=
    List.mem_cons_of_mem _ (List.mem_append_left _ hd)
  have hweighed (d : PolicyDecisionValue)
      (hd : d ∈ (o.weighed env sub results).flatMap (Weighed.contribution spec)) :
      d ∈ .allow :: o.contributions env spec sub results :=
    List.mem_cons_of_mem _ (List.mem_append_right _ hd)
  rw [← covered_flatMap hstatus, ← covered_flatMap hweighed, ← covered_append]
  rfl

/-! ## A run with failing store calls -/

variable {w₀ w w' : World} {subID : String} {sub : Submission} {artifact : Artifact} {n : Nat}
  {kept : List Nat} {ch : Choice}

/-- The results are those of the start and of the goroutines in
`kept`. -/
structure Files (o : Orchestrator) (env : RunEnv) (w₀ : World) (subID : String) (n : Nat)
    (w : World) (kept : List Nat) : Prop where
  nodup : kept.Nodup
  bound : ∀ i ∈ kept, i < n
  results : w.store.results = w₀.store.results.putAll (outcomeRows o env subID kept)
  artifacts : w.store.artifacts = w₀.store.artifacts

/-- The store lists `results` for the submission. -/
def Lists (w : World) (subID : String) (results : List ProviderResult) : Prop :=
  ∃ order, w.store.results.Enumerates order ∧
    results = w.store.getResultsForSubmission order subID

/-- Only goroutines that have stored are in `kept`. -/
structure KeptBy (o : Orchestrator) (env : RunEnv) (subID : String)
    (gos : List (SelectedProvider × GoPc)) (kept : List Nat) : Prop where
  sound : ∀ (i : Nat) sel (pc : GoPc), gos[i]? = some (sel, pc) → pc.Sound o env subID i
  stored : ∀ i ∈ kept, ∃ sel, ∃ pc : GoPc, gos[i]? = some (sel, pc) ∧ pc.stored = true

/-- What is known where a run of `n` goroutines stands that started on
`w₀` with the record `sub`. -/
def Pc.Weighs (o : Orchestrator) (env : RunEnv) (w₀ : World) (subID : String) (sub : Submission)
    (n : Nat) (w : World) (kept : List Nat) : Pc → Prop
  | .checkCtx | .getSubmission => kept = [] ∧ w.store.submissions = w₀.store.submissions
  | .putRunning sub' => kept = [] ∧ sub' = sub
  | .hydrate sub' => kept = [] ∧ sub' = { sub with status := .running }
  | .fanOut _ _ gos _ => gos.length = n ∧ KeptBy o env subID gos kept
  | .putMerged sub' results merged =>
    Lists w subID results ∧ o.merged env sub' results = some merged
  | .evaluate sub' results merged => Lists w subID results ∧ o.merged env sub' results = merged
  | .putDecision sub' dec =>
    ∃ results, Lists w subID results ∧ o.decisionOn env sub' results = .ok dec
  | _ => True

omit [GoStd] in
theorem Files.same (h : Files o env w₀ subID n w kept) (hsame : w.SameResults w') :
    Files o env w₀ subID n w' kept :=
  ⟨h.nodup, h.bound, hsame.results.trans h.results, hsame.artifacts.trans h.artifacts⟩

omit [GoStd] in
theorem Lists.same {results : List ProviderResult} (h : Lists w subID results)
    (hsame : w.SameResults w') : Lists w' subID results := by
  obtain ⟨order, horder, rfl⟩ := h
  refine ⟨order, hsame.results ▸ horder, ?_⟩
  rw [MemoryStore.getResultsForSubmission, MemoryStore.getResultsForSubmission, hsame.results]

omit [GoStd] in
theorem Pc.Weighs.same {pc : Pc} (h : pc.Weighs o env w₀ subID sub n w kept)
    (hsame : w.SameResults w') (hsubs : w'.store.submissions = w.store.submissions) :
    pc.Weighs o env w₀ subID sub n w' kept := by
  cases pc with
  | checkCtx | getSubmission => exact ⟨h.1, hsubs.trans h.2⟩
  | putMerged sub' results merged | evaluate sub' results merged => exact ⟨h.1.same hsame, h.2⟩
  | putDecision sub' dec =>
    obtain ⟨results, hlists, hdec⟩ := h
    exact ⟨results, hlists.same hsame, hdec⟩
  | _ => exact h

omit [GoStd] in
theorem Pc.weighs_of_late {pc : Pc} (h : pc.late = true) :
    pc.Weighs o env w₀ subID sub n w kept := by
  cases pc with
  | putDeferred | complete | putFailed | interruptedGet | interruptedPut | returned => trivial
  | _ => cases h

omit [GoStd] in
/-- A blob that was found is the one in the store. -/
theorem hydrateLocalBlob_ok {s : MemoryStore} {storeErr : Option String} {a b : Artifact}
    (h : hydrateLocalBlob s storeErr a = .ok b) : hydrateLocalBlob s none a = .ok b := by
  cases storeErr with
  | none => exact h
  | some e =>
    unfold hydrateLocalBlob at h ⊢
    cases href : a.contentRef with
    | none => simpa only [href] using h
    | some ref =>
      cases hdigest : localBlobDigest ref.uri with
      | none => simpa only [href, hdigest] using h
      | some digest =>
        simp only [href, hdigest] at h
        cases h

section Moves

variable {gos : List (SelectedProvider × GoPc)} {i : Nat} {sel : SelectedProvider} {pc pc' : GoPc}

omit [GoStd] in
/-- A goroutine moves without storing. -/
theorem KeptBy.quiet (h : KeptBy o env subID gos kept) (hi : gos[i]? = some (sel, pc))
    (hs : pc'.Sound o env subID i) (hstored : pc.stored = true → pc'.stored = true) :
    KeptBy o env subID (gos.set i (sel, pc')) kept where
  sound := GoPc.sound_set h.sound hs
  stored j hj := by
    obtain ⟨sel', q, hq, hst⟩ := h.stored j hj
    by_cases hji : j = i
    · subst hji
      rw [hi] at hq
      cases hq
      exact ⟨sel, pc', List.getElem?_set_self (List.getElem?_eq_some_iff.mp hi).1, hstored hst⟩
    · exact ⟨sel', q, by rw [List.getElem?_set_ne (Ne.symm hji), hq], hst⟩

omit [GoStd] in
theorem KeptBy.not_mem (h : KeptBy o env subID gos kept) (hi : gos[i]? = some (sel, pc))
    (hpc : pc.stored = false) : i ∉ kept := by
  intro hmem
  obtain ⟨sel', q, hq, hst⟩ := h.stored i hmem
  rw [hi] at hq
  cases hq
  rw [hpc] at hst
  cases hst

omit [GoStd] in
/-- A goroutine stores its outcome. -/
theorem KeptBy.store (h : KeptBy o env subID gos kept)
    (hi : gos[i]? = some (sel, .put (outcome o env subID i))) :
    KeptBy o env subID (gos.set i (sel, .record (outcome o env subID i))) (kept ++ [i]) := by
  have hq : KeptBy o env subID (gos.set i (sel, .record (outcome o env subID i))) kept :=
    h.quiet hi rfl fun _ => rfl
  refine ⟨hq.sound, fun j hj => ?_⟩
  rcases List.mem_append.mp hj with hj | hj
  · exact hq.stored j hj
  · obtain rfl := List.mem_singleton.mp hj
    exact ⟨sel, _, List.getElem?_set_self (List.getElem?_eq_some_iff.mp hi).1, rfl⟩

omit [GoStd] in
theorem Files.store (h : Files o env w₀ subID n w kept) (hi : i < n) (hnew : i ∉ kept) :
    Files o env w₀ subID n { w with store := w.store.putResult (outcome o env subID i) }
      (kept ++ [i]) where
  nodup := List.concat_eq_append ▸ List.Nodup.concat hnew h.nodup
  bound j hj := by
    rcases List.mem_append.mp hj with hj | hj
    · exact h.bound j hj
    · rwa [List.mem_singleton.mp hj]
  results := putResult_outcomeRows h.results
  artifacts := h.artifacts

/-- One step of a goroutine, whether or not its store call fails. -/
theorem KeptBy.goStep {a : Artifact} {ids ids' : List String} (h : KeptBy o env subID gos kept)
    (hf : Files o env w₀ subID gos.length w kept) (hi : gos[i]? = some (sel, pc))
    (hgo : goStep o env ch subID a i sel w ids pc = some (w', ids', pc')) :
    ∃ kept', Files o env w₀ subID gos.length w' kept' ∧
      KeptBy o env subID (gos.set i (sel, pc')) kept' := by
  rcases goStep_results (h.sound i sel pc hi) hgo with
    ⟨rfl, -, rfl, -, rfl⟩ | ⟨rfl, -, rfl, rfl⟩ | ⟨-, hsame, hs, hst, -⟩
  · exact ⟨_, hf.store (List.getElem?_eq_some_iff.mp hi).1 (h.not_mem hi rfl), h.store hi⟩
  · exact ⟨kept, hf, h.quiet hi trivial fun _ => rfl⟩
  · exact ⟨kept, hf.same hsame, h.quiet hi hs fun hp => hst.trans hp⟩

end Moves

/-- One step of the run. -/
theorem pcStep_weighs (hsub : w₀.store.getSubmission subID = some sub)
    (hyd : hydrateLocalBlob w₀.store none (canonicalArtifact sub.artifact) = .ok artifact)
    (hn : (o.selected sub artifact).length = n) (horder : w.store.results.Enumerates ch.order)
    {pc pc' : Pc} {out : List Emission} (howns : pc.Owns subID)
    (hf : Files o env w₀ subID n w kept) (hw : pc.Weighs o env w₀ subID sub n w kept)
    (h : pcStep o env ch subID w pc = some (w', pc', out)) :
    ∃ kept', Files o env w₀ subID n w' kept' ∧ pc'.Weighs o env w₀ subID sub n w' kept' := by
  -- a step that leaves the results alone
  have same (hsame : w.SameResults w') (hw' : pc'.Weighs o env w₀ subID sub n w' kept) :
      ∃ kept', Files o env w₀ subID n w' kept' ∧ pc'.Weighs o env w₀ subID sub n w' kept' :=
    ⟨kept, hf.same hsame, hw'⟩
  by_cases hlate : pc.late = true
  · obtain ⟨hlate', hsame⟩ := Pc.late_step hlate h
    exact same hsame (Pc.weighs_of_late hlate')
  rcases pcStep_cases h with hmove | ⟨err, rfl, hloss⟩
  · cases hmove with
    | cancelled | notFound | unreadable | ineligible | cancelledEmpty | noProvider | join
    | cancelledJoined | joined | disappeared | reload | noRuling => exact same (.refl w) trivial
    | start => exact same (.refl w) hw
    | load hget =>
      refine same (.refl w) ⟨hw.1, ?_⟩
      rw [MemoryStore.getSubmission, hw.2] at hget
      exact Option.some.inj (hget.symm.trans hsub)
    | mark sub' =>
      obtain ⟨rfl, rfl⟩ := hw
      exact same ⟨rfl, rfl⟩ ⟨rfl, rfl⟩
    | select hyd' =>
      obtain ⟨rfl, rfl⟩ := hw
      replace hyd' := hydrateLocalBlob_ok hyd'
      rw [hydrateLocalBlob_artifacts hf.artifacts, hyd] at hyd'
      cases hyd'
      refine same (.refl w) ⟨by rw [List.length_map]; exact hn, GoPc.sound_start _, ?_⟩
      intro i hi
      cases hi
    | @goroutine sub' _ _ _ _ _ _ _ _ hgo hstep =>
      obtain ⟨rfl, hkept⟩ := hw
      obtain rfl := howns sub' rfl
      obtain ⟨kept', hf', hkept'⟩ := hkept.goStep hf hgo hstep
      exact ⟨kept', hf', List.length_set, hkept'⟩
    | findings | collect => exact same ⟨rfl, rfl⟩ trivial
    | @weigh sub' _ hresults hmerged | @merge sub' _ _ hresults hmerged =>
      obtain rfl := howns sub' rfl
      exact same (.refl w) ⟨⟨ch.order, horder, hresults.symm⟩, hmerged⟩
    | mergeStored => exact same ⟨rfl, rfl⟩ ⟨hw.1.same ⟨rfl, rfl⟩, hw.2⟩
    | rule heval =>
      obtain ⟨hlists, rfl⟩ := hw
      exact same (.refl w) ⟨_, hlists, heval⟩
    | deferring | deciding => exact same ⟨rfl, rfl⟩ trivial
    | _ => exact absurd rfl hlate
  · cases hloss with
    | call => exact same (.refl _) trivial
    | merge => exact same (.refl _) hw
    | _ => exact absurd rfl hlate

/-- What is known of a run, whatever store calls fail. -/
structure LossInv (o : Orchestrator) (env : RunEnv) (w₀ : World) (subID : String)
    (sub : Submission) (n : Nat) (w : World) (r : Run) (kept : List Nat) : Prop where
  is : r.subID = subID
  owns : r.Owns
  files : Files o env w₀ subID n w kept
  weighs : r.pc.Weighs o env w₀ subID sub n w kept

theorem LossInv.step {r r' : Run} (h : LossInv o env w₀ subID sub n w r kept)
    (hsub : w₀.store.getSubmission subID = some sub)
    (hyd : hydrateLocalBlob w₀.store none (canonicalArtifact sub.artifact) = .ok artifact)
    (hn : (o.selected sub artifact).length = n) (horder : w.store.results.Enumerates ch.order)
    (hstep : r.step o env ch w = some (w', r')) :
    ∃ kept', LossInv o env w₀ subID sub n w' r' kept' := by
  obtain ⟨hid, howns, -⟩ := Run.step_own h.owns hstep
  cases Run.step_move hstep with
  | emit =>
    have hsame := World.emit_sameResults w ch.storeErr ch.randHex ch.now
    exact ⟨kept, h.is, howns, h.files.same (hsame _),
      h.weighs.same (hsame _) (World.emit_submissions ..)⟩
  | call _ hcall =>
    rw [h.is] at hcall
    obtain ⟨kept', hf, hw⟩ :=
      pcStep_weighs hsub hyd hn horder (h.is ▸ h.owns) h.files h.weighs hcall
    exact ⟨kept', h.is, howns, hf, hw⟩

theorem lossInv_reach (hsub : w₀.store.getSubmission subID = some sub)
    (hyd : hydrateLocalBlob w₀.store none (canonicalArtifact sub.artifact) = .ok artifact)
    (hn : (o.selected sub artifact).length = n) {s : World × Run}
    (h : (runSys o env w₀ subID).Reach (fun s ch => s.1.store.results.Enumerates ch.order) s) :
    ∃ kept, LossInv o env w₀ subID sub n s.1 s.2 kept := by
  refine Sys.Reach.invariant (I := fun s => ∃ kept, LossInv o env w₀ subID sub n s.1 s.2 kept)
    h ?_ ?_
  · rintro s rfl
    exact ⟨[], rfl, Pc.owns_of_none rfl, ⟨List.nodup_nil, nofun, rfl, rfl⟩, rfl, rfl⟩
  · rintro s ch s' ⟨kept, hinv⟩ horder hstep
    exact hinv.step hsub hyd hn horder hstep

/-! ## The decision of such a run -/

/-- **What a lost result does to the decision.** A run files the outcomes
of the goroutines in `kept` and decides on the `results` it then lists.
Its decision is at least as strict as the decision on all outcomes, in
any order, exactly when nothing that the list lacks, no result and no
finding, contributes a decision stricter than all that the list
contributes. -/
theorem decision_at_least_complete_iff {e : Policy.Engine} (hpolicy : o.policy = yamlEngine e)
    (hsub : w₀.store.getSubmission subID = some sub)
    (hyd : hydrateLocalBlob w₀.store none (canonicalArtifact sub.artifact) = .ok artifact)
    (hn : (o.selected sub artifact).length = n) {s : World × Run}
    (h : (runSys o env w₀ subID).Reach (fun s ch => s.1.store.results.Enumerates ch.order) s)
    {sub' : Submission} {dec : PolicyDecision} (hpc : s.2.pc = .putDecision sub' dec)
    {complete : List ProviderResult}
    (hcomplete : complete.Perm ((List.range n).map (outcome o env subID))) :
    ∃ kept results doc full,
      Files o env w₀ subID n s.1 kept ∧ Lists s.1 subID results ∧ e.lookup sub' = .ok doc ∧
      o.decisionOn env sub' complete = .ok full ∧
      (rank full.decision ≤ rank dec.decision ↔
        (∀ i < n, outcome o env subID i ∉ results →
          Covered (statusContribution doc.spec (outcome o env subID i))
            (.allow :: o.contributions env doc.spec sub' results)) ∧
        (∀ x ∈ o.weighed env sub' complete, x ∉ o.weighed env sub' results →
          Covered (x.contribution doc.spec)
            (.allow :: o.contributions env doc.spec sub' results))) := by
  obtain ⟨kept, hinv⟩ := lossInv_reach hsub hyd hn h
  have hw := hinv.weighs
  rw [hpc] at hw
  obtain ⟨results, hlists, hdec⟩ := hw
  obtain ⟨doc, hdoc⟩ := lookup_of_decisionOn hpolicy hdec
  obtain ⟨full, hfull, hfullrank⟩ := decisionOn_rank env hpolicy hdoc complete
  obtain ⟨dec', hdec', hrank⟩ := decisionOn_rank env hpolicy hdoc results
  obtain rfl : dec' = dec := Except.ok.inj (hdec'.symm.trans hdec)
  have hmem (p : ProviderResult → Prop) :
      (∀ r ∈ complete, p r) ↔ ∀ i < n, p (outcome o env subID i) := by
    simp only [hcomplete.mem_iff, List.forall_mem_map, List.mem_range]
  refine ⟨kept, results, doc, full, hinv.files, hlists, hdoc, hfull, ?_⟩
  rw [hfullrank, hrank, rank_foldl_le_iff, covered_contributions, hmem]

end Given

/-! ## The only result is lost -/

/-- A document that denies what a provider fails. -/
def denyFailsDoc : Document where
  apiVersion := "scintx.policy/v1"
  kind := "Policy"
  metadata := { id := "default", version := "1" }
  spec := { verdicts := Finmap.singleton "fail" "deny" }

/-- `Orchestrator.plain` with that document and the default aggregator. -/
def denyFails : Orchestrator :=
  { @Orchestrator.plain GoStd.plain with
    policy := @yamlEngine GoStd.plain
      { policies := Finmap.singleton "default" denyFailsDoc, dir := "" }
    aggregator := some
      { aggregate := fun randHex now results =>
          .ok (@DefaultAggregator.aggregate GoStd.plain newDefaultAggregator randHex now
            results) } }

/-- The provider answers with the verdict `v`. -/
def verdictEnv (v : VerdictValue) : RunEnv :=
  RunEnv.plain "a" (.ok { id := "res_a", execution := { status := .completed }
                          verdict := some { value := v } })

/-- The steps of a run whose `PutResult` fails, up to the decision. -/
def lostSteps : List Choice :=
  (List.range 17).map fun k => { storeErr := if k = 9 then some "disk full" else none }

/-- The decision the run is about to store. -/
def Pc.deciding : Pc → Option (Submission × PolicyDecision)
  | .putDecision sub dec => some (sub, dec)
  | _ => none

theorem Pc.eq_of_deciding {pc : Pc} {sub : Submission} {dec : PolicyDecision}
    (h : pc.deciding = some (sub, dec)) : pc = .putDecision sub dec := by
  cases pc with
  | putDecision sub' dec' =>
    cases h
    rfl
  | _ => cases h

/-- The provider fails the artifact, its result cannot be stored, and the
artifact is allowed. -/
theorem lost_fail_is_allowed :
    ∃ s sub dec full,
      (@runSys GoStd.plain denyFails (verdictEnv .fail) scanWorld "sub_a").Reach
        (fun s ch => s.1.store.results.Enumerates ch.order) s ∧
      s.2.pc = .putDecision sub dec ∧ dec.decision = .allow ∧
      (@Orchestrator.selected GoStd.plain denyFails scanSubmission
        scanSubmission.artifact).length = 1 ∧
      denyFails.decisionOn (verdictEnv .fail) sub
        [outcome denyFails (verdictEnv .fail) "sub_a" 0] = .ok full ∧
      full.decision = .deny := by
  let _ := GoStd.plain
  have hrun : ((runSys denyFails (verdictEnv .fail) scanWorld "sub_a").run
      (fun s ch => s.1.store.results.Enumerates ch.order) lostSteps
      (scanWorld, { subID := "sub_a" })).map (fun s => s.2.pc.deciding.map fun (sub, dec) =>
        (dec.decision, (denyFails.decisionOn (verdictEnv .fail) sub
          [outcome denyFails (verdictEnv .fail) "sub_a" 0]).toOption.map (·.decision))) =
      some (some (.allow, some .deny)) := by
    decide +kernel
  obtain ⟨s, hreach, heq⟩ := (Sys.Reach.init rfl).of_run_map hrun
  obtain ⟨⟨sub, dec⟩, hdec, heq⟩ := Option.map_eq_some_iff.mp heq
  obtain ⟨hallow, hfull⟩ := Prod.mk.inj heq
  obtain ⟨full, hfull, hdeny⟩ := Option.map_eq_some_iff.mp hfull
  refine ⟨s, sub, dec, full, hreach, Pc.eq_of_deciding hdec, hallow, rfl, ?_, hdeny⟩
  unfold Except.toOption at hfull
  split at hfull
  · rename_i full' hok
    cases hfull
    exact hok
  · cases hfull

/-- The result of a provider that passes the artifact is lost without
harm. -/
theorem decision_at_least_complete_iff_pass :
    ∃ s sub dec full,
      (@runSys GoStd.plain denyFails (verdictEnv .pass) scanWorld "sub_a").Reach
        (fun s ch => s.1.store.results.Enumerates ch.order) s ∧
      s.2.pc = .putDecision sub dec ∧
      denyFails.decisionOn (verdictEnv .pass) sub
        [outcome denyFails (verdictEnv .pass) "sub_a" 0] = .ok full ∧
      rank full.decision ≤ rank dec.decision := by
  let _ := GoStd.plain
  have hrun : ((runSys denyFails (verdictEnv .pass) scanWorld "sub_a").run
      (fun s ch => s.1.store.results.Enumerates ch.order) lostSteps
      (scanWorld, { subID := "sub_a" })).map (fun s => s.2.pc.deciding.map (·.1.policyRef)) =
      some (some (some "default")) := by
    decide +kernel
  obtain ⟨s, hreach, heq⟩ := (Sys.Reach.init rfl).of_run_map hrun
  obtain ⟨⟨sub, dec⟩, hdec, href⟩ := Option.map_eq_some_iff.mp heq
  have hpc := Pc.eq_of_deciding hdec
  obtain ⟨kept, results, doc, full, -, -, hdoc, hfull, hiff⟩ :=
    decision_at_least_complete_iff (n := 1) rfl rfl rfl rfl hreach hpc (.refl _)
  obtain rfl : denyFailsDoc = doc := by
    simp only [Engine.lookup, show sub.policyRef = some "default" from href] at hdoc
    exact Except.ok.inj hdoc
  refine ⟨s, sub, dec, full, hreach, hpc, hfull, hiff.mpr ⟨fun i hi _ d hd => ?_, ?_⟩⟩
  · obtain rfl : i = 0 := by omega
    cases hd
  · intro x hx
    cases hx

end Scintx.Orchestrator
