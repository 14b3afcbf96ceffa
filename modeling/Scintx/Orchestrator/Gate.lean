/-
Scintx.Orchestrator.Gate — what an `allow` says about an artifact.

The gateway is a gate if all its parts fail closed. The parts, and what
is asked of each:

1. PROVIDERS — an answer of OSV or of OSS Index objects to the artifact,
   or the server has been asked and knows nothing against it
   (`Checked.clean_or_objects`).
2. POLICY — a closed policy does not allow what one of its results
   objects to (`Closed.not_allow`). The engine of `example/policy.go` is
   closed; a YAML document is if it lets neither an error nor the verdict
   `fail` pass, which the documents under `policies/` do.
3. RUN — when no store call fails, results have JSON and ids of their own,
   the policy gets every outcome (`outcome_listed`).

`allowed_only_clean` is the three together, over every schedule. An answer
from the cache counts as the answer that was given for it.

Neither provider ever reports the status `timeout`, and nor does the
orchestrator: a deadline that has passed is an error. So the rule that a
document has for timeouts is never used (`on_timeout_unused`), and
`on_timeout: deny` of `policies/strict.yaml` denies nothing.
-/
import Scintx.Orchestrator.Caching
import Scintx.Orchestrator.LostResults
import Scintx.Ossindex.Provider
import Scintx.Osv.ProviderTheorems
import Scintx.Policy.Example

namespace Scintx.Orchestrator

open Scintx.Lib Scintx.Api Scintx.Store Scintx.Policy
open Scintx.Osv (OsvResult OsvFinding AssessEnv AllAsked GoUrl GoJson GoFloat)
open Scintx.Ossindex (GoReports Reported)
open Scintx.Policy.ExampleEngine (isAffected verdictOf Harmless)

/-! ## Objections -/

/-- The content does not come to an end, or it fails the artifact and has a
finding that affects it. -/
def Content.Objects (c : Content) : Prop :=
  (c.status ≠ .completed ∧ c.status ≠ .timeout) ∨
    (c.status = .completed ∧ c.verdict = some { value := .fail } ∧
      ∃ f ∈ c.findings, isAffected f = true)

/-- What has no JSON becomes the zero result, whose status is none of the
three. -/
theorem Content.Objects.stored {c : Content} (h : c.Objects) : c.stored.Objects := by
  unfold Content.stored cloneOr
  split
  · exact h
  · exact .inl ⟨by decide, by decide⟩

theorem Content.stored_status_ne_timeout {c : Content} (h : c.status ≠ .timeout) :
    c.stored.status ≠ .timeout := by
  unfold Content.stored cloneOr
  split
  · exact h
  · decide

/-! ## Providers -/

/-- The part of a finding that the gateway reads. -/
def shownFinding (f : OsvFinding) : Finding where
  id := f.id
  type := f.type
  title := f.title
  identifiers := f.identifiers.map fun x => { scheme := x.scheme, value := x.value }
  subjects := f.subjects
  severity := f.severity
  assessment := f.assessment

/-- The part of a result that the gateway reads. -/
def shown (res : OsvResult) : ProviderResult where
  id := res.id
  provider := res.provider
  execution := res.execution
  verdict := res.verdict.map fun v => { value := v.value }
  findings := res.findings.map shownFinding

/-- An error objects. -/
theorem objects_of_error {res : OsvResult} (h : res.execution.status = .error) :
    (contentOf (shown res)).Objects := by
  refine .inl ⟨?_, ?_⟩
  · show res.execution.status ≠ .completed
    rw [h]
    decide
  · show res.execution.status ≠ .timeout
    rw [h]
    decide

section Providers

variable [GoStd] [GoUrl] [GoJson] [GoFloat] [GoReports]

/-- An answer about `artifact` of one of the two providers; `clean` is what
a pass of theirs stands for. -/
inductive Checked (artifact : Artifact) : ProviderResult → Prop → Prop
  | osv {p : Osv.Provider} {env : AssessEnv} {server : Osv.Server} {rounds : Nat}
      {res : OsvResult} {wire : Osv.Wire}
      (h : p.assess env server rounds artifact = some (res, wire)) :
      Checked artifact (shown res) (AllAsked (p.clientIn env) server artifact wire)
  | ossindex (p : Ossindex.Provider) (env : AssessEnv) (expired : Bool)
      (server : Ossindex.ReportServer) :
      Checked artifact (shown (p.assess env expired server artifact))
        (Reported (p.clientIn env) server artifact [])

theorem Checked.clean_or_objects (hl : GoStd.LowerLaws) {artifact : Artifact}
    {res : ProviderResult} {clean : Prop} (h : Checked artifact res clean) :
    clean ∨ (contentOf res).Objects := by
  cases h with
  | @osv p env server rounds res wire h =>
    cases Osv.assess_spec h with
    | unnamed _ => exact .inr (objects_of_error rfl)
    | @failed _ _ e _ _ _ _ =>
      exact .inr (objects_of_error (Osv.mapClientError_undecided env e).1)
    | @completed purl canonical raw vulns _ _ _ _ =>
      cases vulns with
      | nil => exact .inl (Osv.assess_pass hl h rfl)
      | cons v vulns => exact .inr (.inr ⟨rfl, rfl, _, List.mem_cons_self, rfl⟩)
  | ossindex p env expired server =>
    rcases Ossindex.assess_cases p env expired server artifact with
      herror | ⟨canonical, vulns, raw, hreported, heq⟩
    · exact .inr (objects_of_error herror)
    · cases vulns with
      | nil => exact .inl hreported
      | cons v vulns =>
        rw [heq]
        exact .inr (.inr ⟨rfl, rfl, _, List.mem_cons_self, rfl⟩)

end Providers

/-! ## Policies -/

/-- The engine of the source's example; it is not merge aware. -/
def exampleEngine (e : ExampleEngine) : PolicyEngine where
  evaluate sub results env := .ok (e.evaluate sub results env)

/-- The document lets neither an error nor the verdict `fail` pass. -/
structure FailsClosed (spec : Spec) : Prop where
  onError : 1 ≤ rank (decisionOr spec.onError .review)
  fail : ∃ d, spec.verdicts.lookup "fail" = some d ∧ 1 ≤ rank (.ofString d)

theorem FailsClosed.contributes {spec : Spec} (h : FailsClosed spec) {r : ProviderResult}
    (hobj : (contentOf r).Objects) : ∃ d ∈ statusContribution spec r, 1 ≤ rank d := by
  rcases hobj with ⟨hcompleted, htimeout⟩ | ⟨hcompleted, hverdict, -⟩
  · replace hcompleted : r.execution.status ≠ .completed := hcompleted
    replace htimeout : r.execution.status ≠ .timeout := htimeout
    have hmem : decisionOr spec.onError .review ∈ executionContribution spec r := by
      unfold executionContribution
      rw [if_neg hcompleted, if_neg htimeout]
      exact List.mem_singleton_self _
    exact ⟨_, List.mem_append_left _ hmem, h.onError⟩
  · replace hcompleted : r.execution.status = .completed := hcompleted
    replace hverdict : r.verdict = some { value := .fail } := hverdict
    obtain ⟨d, hd, hrank⟩ := h.fail
    have hmem : PolicyDecisionValue.ofString d ∈ verdictContribution spec r := by
      unfold verdictContribution
      rw [if_neg (not_not_intro hcompleted), hverdict]
      simp only [VerdictValue.text, hd, Option.toList_some, List.map_cons, List.map_nil,
        List.mem_singleton]
    exact ⟨_, List.mem_append_right _ hmem, hrank⟩

theorem not_harmless_of_objects {r : ProviderResult} (h : (contentOf r).Objects) :
    ¬ Harmless r := by
  rintro ⟨hcompleted, hverdict⟩
  rcases h with ⟨hne, -⟩ | ⟨-, hfail, f, hf, haffected⟩
  · exact hne hcompleted
  · have hfails : verdictOf r = some .fail := by
      rw [verdictOf, show r.verdict = _ from hfail]
      rfl
    rw [hfails] at hverdict
    rcases hverdict with hpass | ⟨-, hnone⟩ | ⟨s, hs, hother⟩
    · cases hpass
    · rw [hnone f hf] at haffected
      cases haffected
    · cases hother

section Given

variable [GoStd] {o : Orchestrator} {env : RunEnv}

/-- The policy for the submission fails closed. -/
inductive Closed (o : Orchestrator) (sub : Submission) : Prop
  | yaml {e : Policy.Engine} {doc : Document} (hpolicy : o.policy = yamlEngine e)
      (hdoc : e.lookup sub = .ok doc) (h : FailsClosed doc.spec)
  | coded {e : ExampleEngine} (hpolicy : o.policy = exampleEngine e)

theorem Closed.not_allow {sub : Submission} (h : Closed o sub) {results : List ProviderResult}
    {dec : PolicyDecision} (hdec : o.decisionOn env sub results = .ok dec) {r : ProviderResult}
    (hr : r ∈ results) (hobj : (contentOf r).Objects) : dec.decision ≠ .allow := by
  have hrank : 1 ≤ rank dec.decision := by
    cases h with
    | @yaml e doc hpolicy hdoc hclosed =>
      obtain ⟨dec', hdec', hrank⟩ := decisionOn_rank env hpolicy hdoc results
      obtain rfl : dec' = dec := Except.ok.inj (hdec'.symm.trans hdec)
      obtain ⟨d, hd, hle⟩ := hclosed.contributes hobj
      rw [hrank]
      refine le_rank_foldl_escalate.mpr (.inr ⟨d, List.mem_append_left _ ?_, hle⟩)
      exact List.mem_flatMap.mpr ⟨r, hr, hd⟩
    | @coded e hpolicy =>
      have heval : o.decisionOn env sub results = .ok (e.evaluate sub results env.eval) := by
        unfold Orchestrator.decisionOn Orchestrator.evaluate
        rw [hpolicy]
        cases o.merged env sub results <;> rfl
      obtain rfl : e.evaluate sub results env.eval = dec := Except.ok.inj (heval.symm.trans hdec)
      exact e.le_rank_evaluate sub env.eval hr (not_harmless_of_objects hobj)
  intro hallow
  rw [hallow] at hrank
  exact absurd hrank (by decide)

/-! ## Runs -/

/-- What goroutine `i` is given, by its provider or by the cache. -/
inductive RunEnv.Gives (env : RunEnv) (i : Nat) (res : ProviderResult) : Prop
  | asked (hmiss : env.cacheGet i = none) (h : env.assess i = .ok res)
  | cached (h : env.cacheGet i = some res)

omit [GoStd] in
theorem RunEnv.Gives.objects {i : Nat} {res : ProviderResult} (h : env.Gives i res)
    (hobj : (contentOf res).Objects) (o : Orchestrator) (subID : String) :
    (contentOf (outcome o env subID i)).Objects := by
  cases h with
  | asked hmiss h =>
    have hout : outcome o env subID i = { res with submissionID := subID } := by
      simp only [outcome, hmiss, assessed, h]
    rw [hout]
    exact hobj
  | cached h =>
    have hout : outcome o env subID i =
        materializeCachedResult res subID (env.resultRand i) (env.clock i) o.cacheTTL := by
      simp only [outcome, h]
    rw [hout, contentOf_materializeCachedResult]
    exact hobj.stored

variable {w₀ w : World} {subID : String} {sub : Submission} {artifact : Artifact} {n : Nat}
  {r : Run} {ph : Phase} {done : List Nat}

/-- Results that the store keeps apart. -/
structure Distinct (o : Orchestrator) (env : RunEnv) (subID : String) (n : Nat) : Prop where
  json : ∀ i < n, (outcome o env subID i).encodable = true
  ids : ∀ i < n, ∀ j < n, (outcome o env subID i).id = (outcome o env subID j).id → i = j

omit [GoStd] in
theorem outcome_listed (h : RunInv o env w₀ subID sub n w r ph done)
    (hdistinct : Distinct o env subID n) {sub' : Submission} {dec : PolicyDecision}
    (hpc : r.pc = .putDecision sub' dec) {results : List ProviderResult}
    (hlists : Lists w subID results) {i : Nat} (hi : i < n) :
    outcome o env subID i ∈ results := by
  have hall : done.Perm (List.range n) := by
    have hph := h.phase
    have hknown := h.known
    rw [hpc] at hph
    cases hph with
    | finished hlate => cases hlate
    | putDecision hjoined _ =>
      obtain ⟨rfl, rfl, -⟩ := hknown
      exact hjoined.all
  have henc (k : Nat) (hk : k ∈ done) : (outcome o env subID k).encodable = true :=
    hdistinct.json k (h.bound k hk)
  obtain ⟨k, hk, hid, hget⟩ := get?_outcomeRows (t := w₀.store.results) henc
    (hall.mem_iff.mpr (List.mem_range.mpr hi))
  obtain rfl := hdistinct.ids k (h.bound k hk) i hi hid
  obtain ⟨order, horder, rfl⟩ := hlists
  refine (MemoryStore.mem_getResultsForSubmission horder).mpr ⟨outcome_submissionID ..,
    .of (outcome o env subID k), ?_, ?_⟩
  · rw [h.results]
    exact hget
  · exact cloneJSON_of_encodable (henc k hk)

/-- **An allowed artifact is clean.** A run without a failing store call
decides, on results that the store keeps apart, by a policy that fails
closed. If it allows the artifact, then every answer of OSV and of OSS
Index that it was given is one for which the servers were asked and knew
of no vulnerability. -/
theorem allowed_only_clean [GoUrl] [GoJson] [GoFloat] [GoReports] (hl : GoStd.LowerLaws)
    (hsub : w₀.store.getSubmission subID = some sub)
    (hyd : hydrateLocalBlob w₀.store none (canonicalArtifact sub.artifact) = .ok artifact)
    (hn : (o.selected sub artifact).length = n) (hdistinct : Distinct o env subID n)
    {s : World × Run} (hreach : (runSys o env w₀ subID).Reach (fun s ch => ch.Regular s) s)
    {sub' : Submission} {dec : PolicyDecision} (hpc : s.2.pc = .putDecision sub' dec)
    (hallow : dec.decision = .allow) (hclosed : Closed o sub') {i : Nat} (hi : i < n)
    {asked : Artifact} {res : ProviderResult} {clean : Prop} (hgives : env.Gives i res)
    (hchecked : Checked asked res clean) : clean := by
  rcases hchecked.clean_or_objects hl with hclean | hobj
  · exact hclean
  · obtain ⟨ph, done, hinv⟩ := runInv_reach hsub hyd hn hreach
    obtain ⟨kept, hloss⟩ := lossInv_reach hsub hyd hn (hreach.mono fun s ch hreg => hreg.2)
    have hweighs := hloss.weighs
    rw [hpc] at hweighs
    obtain ⟨results, hlists, hdec⟩ := hweighs
    have hmem := outcome_listed hinv hdistinct hpc hlists hi
    exact absurd hallow (hclosed.not_allow hdec hmem (hgives.objects hobj o subID))

end Given

/-- A report without vulnerabilities. -/
@[reducible] def reportsNone : GoReports where
  decode _ := .ok []

/-- OSS Index, whose server reports nothing on a package. -/
def cleanReport : ProviderResult :=
  let _ := GoStd.plain
  let _ := reportsNone
  let p : Ossindex.Provider := { client := some { token := "t" } }
  shown (p.assess { resultRand := "a" } false (fun _ => .answered 200 "[]")
    { purl := some "pkg:npm/lodash@4.17.21" })

/-- The steps of a run of one provider, up to the decision. -/
def decidedSteps : List Choice :=
  (List.range 19).map fun k => { order := if 10 ≤ k then ["res_a"] else [] }

/-- A package that OSS Index has nothing against is allowed. -/
theorem allowed_only_clean_reported :
    let _ := GoStd.plain
    let _ := GoUrl.plain
    let _ := GoJson.plain []
    let _ := GoFloat.plain
    let _ := reportsNone
    ∃ s sub dec, (runSys denyFails (RunEnv.plain "a" (.ok cleanReport)) scanWorld "sub_a").Reach
        (fun s ch => ch.Regular s) s ∧ s.2.pc = .putDecision sub dec ∧ dec.decision = .allow ∧
      Reported { token := "t" } (fun _ => .answered 200 "[]")
        { purl := some "pkg:npm/lodash@4.17.21" } [] := by
  intro _ _ _ _ _
  have hrun : ((runSys denyFails (RunEnv.plain "a" (.ok cleanReport)) scanWorld "sub_a").run
      (fun s ch => ch.Regular s) decidedSteps
      (scanWorld, { subID := "sub_a" })).map (fun s => s.2.pc.deciding.map fun (sub, dec) =>
        (sub.policyRef, dec.decision)) = some (some (some "default", .allow)) := by
    decide +kernel
  obtain ⟨s, hreach, heq⟩ := (Sys.Reach.init rfl).of_run_map hrun
  obtain ⟨⟨sub, dec⟩, hdec, heq⟩ := Option.map_eq_some_iff.mp heq
  obtain ⟨href, hallow⟩ := Prod.mk.inj heq
  have hpc := Pc.eq_of_deciding hdec
  have hlookup : Engine.lookup { policies := Finmap.singleton "default" denyFailsDoc, dir := "" }
      sub = .ok denyFailsDoc := by
    simp only [Engine.lookup, show sub.policyRef = some "default" from href]
    rfl
  have hclosed : Closed denyFails sub :=
    .yaml rfl hlookup ⟨by decide, "deny", by decide, by decide⟩
  have hdistinct : Distinct denyFails (RunEnv.plain "a" (.ok cleanReport)) "sub_a" 1 := by
    refine ⟨fun i hi => ?_, fun i hi j hj _ => by omega⟩
    obtain rfl : i = 0 := by omega
    decide +kernel
  exact ⟨s, sub, dec, hreach, hpc, hallow,
    allowed_only_clean lowerLaws_plain rfl rfl rfl hdistinct hreach hpc hallow hclosed
      Nat.zero_lt_one (.asked rfl rfl) (.ossindex { client := some { token := "t" } }
        { resultRand := "a" } false (fun _ => .answered 200 "[]"))⟩

/-! ## Timeouts -/

section Timeouts

variable [GoStd]

/-- The document with another rule for timeouts. -/
def withOnTimeout (doc : Document) (onTimeout : String) : Document :=
  { doc with spec := { doc.spec with onTimeout := onTimeout } }

/-- The goroutine is given an answer of one of the two providers, or its
provider fails. -/
inductive RunEnv.Shipped [GoUrl] [GoJson] [GoFloat] [GoReports] (env : RunEnv) (i : Nat) : Prop
  | given {asked : Artifact} {res : ProviderResult} {clean : Prop} (h : env.Gives i res)
      (hchecked : Checked asked res clean)
  | failed {e : String} (hmiss : env.cacheGet i = none) (h : env.assess i = .error e)

/-- A result that the store hands out. -/
def Delivered [GoUrl] [GoJson] [GoFloat] [GoReports] (r : ProviderResult) : Prop :=
  ∃ (o : Orchestrator) (env : RunEnv) (subID : String) (i : Nat),
    env.Shipped i ∧ r = cloneJSON (outcome o env subID i)

section Shipped

variable [GoUrl] [GoJson] [GoFloat] [GoReports]

theorem Checked.status_ne_timeout {artifact : Artifact} {res : ProviderResult} {clean : Prop}
    (h : Checked artifact res clean) : (contentOf res).status ≠ .timeout := by
  cases h with
  | @osv p env server rounds res wire h =>
    show res.execution.status ≠ .timeout
    cases Osv.assess_spec h with
    | unnamed _ => exact fun hcontra => by cases hcontra
    | @failed _ _ e _ _ _ _ =>
      rw [(Osv.mapClientError_undecided env e).1]
      decide
    | completed _ _ _ => exact fun hcontra => by cases hcontra
  | ossindex p env expired server =>
    show (p.assess env expired server artifact).execution.status ≠ .timeout
    rcases Ossindex.assess_cases p env expired server artifact with herror | ⟨_, _, _, -, heq⟩
    · rw [herror]
      decide
    · rw [heq]
      exact fun hcontra => by cases hcontra

theorem Delivered.status_ne_timeout {r : ProviderResult} (h : Delivered r) :
    r.execution.status ≠ .timeout := by
  obtain ⟨o, env, subID, i, hshipped, rfl⟩ := h
  show (contentOf (cloneJSON (outcome o env subID i))).status ≠ .timeout
  rw [contentOf_cloneJSON]
  refine Content.stored_status_ne_timeout ?_
  cases hshipped with
  | given hgives hchecked =>
    cases hgives with
    | asked hmiss hok =>
      simp only [outcome, hmiss, assessed, hok]
      exact hchecked.status_ne_timeout
    | cached hhit =>
      simp only [outcome, hhit]
      rw [contentOf_materializeCachedResult]
      exact Content.stored_status_ne_timeout hchecked.status_ne_timeout
  | failed hmiss herr =>
    simp only [outcome, hmiss, assessed, herr]
    exact fun hcontra => by cases hcontra

end Shipped

omit [GoStd] in
theorem unfinished_onTimeout {r : ProviderResult} (h : r.execution.status ≠ .timeout)
    (doc : Document) (x : String) (t : Tally) :
    t.unfinished (withOnTimeout doc x).spec r = t.unfinished doc.spec r := by
  unfold Tally.unfinished
  rw [if_neg h, if_neg h]
  rfl

theorem rawResult_onTimeout {r : ProviderResult} (h : r.execution.status ≠ .timeout)
    (doc : Document) (x : String) (t : Tally) :
    rawResult (withOnTimeout doc x).spec t r = rawResult doc.spec t r := by
  unfold rawResult
  rw [unfinished_onTimeout h]
  rfl

omit [GoStd] in
theorem executionPhase_onTimeout {r : ProviderResult} (h : r.execution.status ≠ .timeout)
    (doc : Document) (x : String) (t : Tally) :
    executionPhase (withOnTimeout doc x).spec t r = executionPhase doc.spec t r := by
  unfold executionPhase
  rw [unfinished_onTimeout h]
  rfl

/-- **The rule for timeouts is not used.** On results of OSV, of OSS Index
and of providers that failed, whether asked or from the cache, a document
decides the same, with the same reasons, whatever its `on_timeout`. -/
theorem on_timeout_unused [GoUrl] [GoJson] [GoFloat] [GoReports] (doc : Document)
    (onTimeout : String) (sub : Submission) {results : List ProviderResult}
    (h : ∀ r ∈ results, Delivered r) (merged : MergedResult) (env : EvalEnv) :
    evaluateDoc (withOnTimeout doc onTimeout) sub results env = evaluateDoc doc sub results env ∧
      evaluateMergedDoc (withOnTimeout doc onTimeout) sub results merged env =
        evaluateMergedDoc doc sub results merged env := by
  have hraw : results.foldl (rawResult (withOnTimeout doc onTimeout).spec) .start =
      results.foldl (rawResult doc.spec) .start :=
    List.foldl_ext _ _ _ fun t r hr => rawResult_onTimeout (h r hr).status_ne_timeout ..
  have hphase : results.foldl (executionPhase (withOnTimeout doc onTimeout).spec) .start =
      results.foldl (executionPhase doc.spec) .start :=
    List.foldl_ext _ _ _ fun t r hr => executionPhase_onTimeout (h r hr).status_ne_timeout ..
  constructor
  · unfold evaluateDoc
    rw [hraw]
    rfl
  · unfold evaluateMergedDoc
    rw [hphase]
    rfl

end Timeouts

/-- OSS Index, whose server does not answer in time. -/
def expiredReport : ProviderResult :=
  let _ := GoStd.plain
  let _ := reportsNone
  let p : Ossindex.Provider := { client := some { token := "t" } }
  shown (p.assess { resultRand := "a" } true
    (fun _ => .failed { text := "context deadline exceeded", deadline := true })
    { purl := some "pkg:npm/lodash@4.17.21" })

/-- A provider that does not answer in time, and a document that denies
timeouts: the artifact goes to review. -/
theorem on_timeout_unused_expired :
    let _ := GoStd.plain
    let _ := GoUrl.plain
    let _ := GoJson.plain []
    let _ := GoFloat.plain
    let _ := reportsNone
    let r := cloneJSON (outcome denyFails (RunEnv.plain "a" (.ok expiredReport)) "sub_a" 0)
    let env : EvalEnv := { randHex := "a", now := 0, resumeFrom := 0 }
    Delivered r ∧ r.execution.error.map (·.code) = some .timeout ∧
      (evaluateDoc (withOnTimeout denyFailsDoc "deny") scanSubmission [r] env).decision =
        .review := by
  intro _ _ _ _ _ r env
  have hdelivered : Delivered r :=
    ⟨denyFails, RunEnv.plain "a" (.ok expiredReport), "sub_a", 0, .given (.asked rfl rfl)
      (.ossindex { client := some { token := "t" } } { resultRand := "a" } true
        (fun _ => .failed { text := "context deadline exceeded", deadline := true })), rfl⟩
  have hall : ∀ r' ∈ [r], Delivered r' := by
    intro r' hr'
    rw [List.mem_singleton.mp hr']
    exact hdelivered
  have hsame := on_timeout_unused denyFailsDoc "deny" scanSubmission hall .zero env
  refine ⟨hdelivered, by decide +kernel, ?_⟩
  rw [hsame.1]
  decide +kernel

end Scintx.Orchestrator
