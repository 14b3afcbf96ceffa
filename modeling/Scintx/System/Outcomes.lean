/-
Scintx.System.Outcomes — what a completed submission tells a client.

A client polls a submission until it is completed with the reason
`decision_produced`, and then reads the decision that it names. That
decision is there, it is about this submission, it was taken under the
document that the submission named in `policy_ref`, a validated one, and
it is final: allow, review or deny (`local_outcome_decided`,
`queue_outcome_decided`). A consumer's resolution takes its place, and
the same holds of that.

No order of the calls is assumed, no store call has to succeed, and in
queue mode any number of workers may run one submission and crash.
-/
import Scintx.Policy.Loading
import Scintx.Server.Reads
import Scintx.System.Rulings

namespace Scintx.System

open Scintx.Lib Scintx.Api Scintx.Store Scintx.Orchestrator Scintx.Workers Scintx.Server
  Scintx.Policy

/-! ## Local mode -/

def LocalThread.Stands (G : SubmissionIdentity → PolicyDecision → Prop) (s : MemoryStore) :
    LocalThread → Prop
  | .handler h => Handler.Stands G s h
  | .worker r _ => Pc.Stands G s r.pc
  | .ended => True

theorem LocalThread.Stands.mono {G : SubmissionIdentity → PolicyDecision → Prop}
    {s s' : MemoryStore} (hk : KeepsDecisions s s') (t : LocalThread)
    (h : LocalThread.Stands G s t) : LocalThread.Stands G s' t := by
  cases t with
  | handler h' => exact Handler.Stands.mono h hk
  | worker r env => exact Pc.Stands.mono h hk
  | ended => trivial

def LocalThread.files : LocalThread → Option PolicyDecision
  | .handler h => Handler.files h
  | .worker r _ => Run.draft r
  | .ended => none

/-- The thread that moves, if one does. -/
def LocalAction.thread : LocalAction → Option Nat
  | .handler i _ | .run i _ => some i
  | _ => none

/-- A decision that the step files has JSON and a new id. -/
def LocalState.filesNew (s : LocalState) (a : LocalAction) : Bool :=
  isNew s.world.store
    (a.thread.bind fun i => (s.threads[i]?).bind fun t => LocalThread.files t)

/-- A gateway that starts without submissions. -/
def localBare [GoStd] (o : Orchestrator) : Sys LocalState LocalAction :=
  { localSys o with
    init := fun s => s.threads = [] ∧ ∀ id, s.world.store.submissions.get? id = none }

section Given

variable [GoStd] {o : Orchestrator} {G : SubmissionIdentity → PolicyDecision → Prop}

theorem LocalMove.judged (hcert : Certifies o G) (hinherit : Inherited G) {s s' : LocalState}
    {a : LocalAction} (hm : LocalMove o s a s') (hnew : s.filesNew a = true)
    (h : Shared (RowsJudged G) (LocalThread.Stands G) s.world.store s.threads) :
    Shared (RowsJudged G) (LocalThread.Stands G) s'.world.store s'.threads := by
  cases hm with
  | create => exact h.spawn (judged_newSubmission ..)
  | refused | resume | adjudicate | take => exact h.spawn trivial
  | handler hi hcall =>
    simp only [LocalState.filesNew, LocalAction.thread, Option.bind_some, hi] at hnew
    have hkeeps := Handler.step_judged hinherit localDispatcher_writesJobs h.state
      (h.threads _ (List.mem_of_getElem? hi)) hnew hcall
    exact h.moved (LocalThread.Stands.mono hkeeps.decisions) hkeeps.rows _ hkeeps.next
  | run hi hcall =>
    simp only [LocalState.filesNew, LocalAction.thread, Option.bind_some, hi] at hnew
    have hkeeps := Run.step_judged hcert h.state (h.threads _ (List.mem_of_getElem? hi)) hnew hcall
    exact h.moved (LocalThread.Stands.mono hkeeps.decisions) hkeeps.rows _ hkeeps.next
  | finish hi hfin hpool => exact h.moved (fun _ ht => ht) h.state _ trivial
  | close => exact h

theorem local_judged (hcert : Certifies o G) (hinherit : Inherited G) {s : LocalState}
    (h : (localBare o).Reach (fun s a => s.filesNew a = true) s) :
    RowsJudged G s.world.store := by
  refine (h.invariant (I := fun s =>
    Shared (RowsJudged G) (LocalThread.Stands G) s.world.store s.threads) ?_ ?_).state
  · intro s h0
    refine ⟨fun id row hrow => ?_, by simp [h0.1]⟩
    rw [h0.2 id] at hrow
    cases hrow
  · intro s a s' hinv hnew hstep
    exact LocalMove.judged hcert hinherit (localStep_move hstep) hnew hinv

end Given

/-! ## Queue mode -/

def WorkerPc.Stands (G : SubmissionIdentity → PolicyDecision → Prop) (s : MemoryStore) :
    WorkerPc → Prop
  | .exceeded _ sub => Judged G s sub
  | .processing r _ => Pc.Stands G s r.pc
  | _ => True

def QueueThread.Stands (G : SubmissionIdentity → PolicyDecision → Prop) (s : MemoryStore) :
    QueueThread → Prop
  | .handler _ h => Handler.Stands G s h
  | .worker _ _ pc => WorkerPc.Stands G s pc
  | .ended => True

theorem QueueThread.Stands.mono {G : SubmissionIdentity → PolicyDecision → Prop}
    {s s' : MemoryStore} (hk : KeepsDecisions s s') (t : QueueThread)
    (h : QueueThread.Stands G s t) : QueueThread.Stands G s' t := by
  cases t with
  | handler g h' => exact Handler.Stands.mono h hk
  | worker g n pc =>
    cases pc with
    | exceeded id sub => exact Judged.mono h hk
    | processing r env => exact Pc.Stands.mono h hk
    | _ => trivial
  | ended => trivial

def WorkerPc.files : WorkerPc → Option PolicyDecision
  | .processing r _ => Run.draft r
  | _ => none

def QueueThread.files : QueueThread → Option PolicyDecision
  | .handler _ h => Handler.files h
  | .worker _ _ pc => WorkerPc.files pc
  | .ended => none

def QueueAction.thread : QueueAction → Option Nat
  | .handler i _ | .worker i _ _ => some i
  | _ => none

/-- A decision that the step files has JSON and a new id. -/
def QueueState.filesNew (s : QueueState) (a : QueueAction) : Bool :=
  isNew s.store (a.thread.bind fun i => (s.threads[i]?).bind fun t => QueueThread.files t)

/-- Gateways over a store without submissions. -/
def queueBare [GoStd] (o : Orchestrator) : Sys QueueState QueueAction :=
  { queueSys o with
    init := fun s => s.threads = [] ∧ ∀ id, s.store.submissions.get? id = none }

section Given

variable [GoStd] {o : Orchestrator} {G : SubmissionIdentity → PolicyDecision → Prop}

theorem WorkerPc.step_judged (hcert : Certifies o G) {p : QueuePool} {owner : String}
    {env : RunEnv} {ch : Choice} {w w' : World} {pc pc' : WorkerPc}
    (hrows : RowsJudged G w.store) (hpc : WorkerPc.Stands G w.store pc)
    (hnew : isNew w.store (WorkerPc.files pc) = true)
    (h : pc.step o p owner env ch w = some (w', pc')) :
    KeepsJudged G w.store w'.store (WorkerPc.Stands G · pc') := by
  cases WorkerPc.step_move h with
  | claim | unclaimed | complete => exact .aside hrows rfl rfl trivial
  | exceed hget => exact .same hrows (hrows.get hget)
  | fail => exact .put hrows (hpc.restate ⟨rfl, rfl⟩ rfl fun hst => by cases hst) trivial
  | run hcall => exact Run.step_judged hcert hrows hpc hnew hcall
  | _ => exact .same hrows trivial

theorem QueueCall.judged (hcert : Certifies o G) (hinherit : Inherited G) {s s' : QueueState}
    {a : QueueAction} (hm : QueueCall o s a s') (hnew : s.filesNew a = true)
    (h : Shared (RowsJudged G) (QueueThread.Stands G) s.store s.threads) :
    Shared (RowsJudged G) (QueueThread.Stands G) s'.store s'.threads := by
  cases hm with
  | create => exact h.spawn (judged_newSubmission ..)
  | refused | resume | adjudicate | start => exact h.spawn trivial
  | boot | close => exact h
  | handler hi hgw hcall =>
    simp only [QueueState.filesNew, QueueAction.thread, Option.bind_some, hi] at hnew
    rename_i hd hd' gw pool w
    have hstands : Handler.Stands G (gw.world s.store).store hd :=
      h.threads _ (List.mem_of_getElem? hi)
    have hkeeps :=
      Handler.step_judged hinherit queueDispatcher_writesJobs h.state hstands hnew hcall
    exact h.moved (QueueThread.Stands.mono hkeeps.decisions) hkeeps.rows _ hkeeps.next
  | worker hi hgw hcall =>
    simp only [QueueState.filesNew, QueueAction.thread, Option.bind_some, hi] at hnew
    rename_i pc pc' gw w
    have hstands : WorkerPc.Stands G (gw.world s.store).store pc :=
      h.threads _ (List.mem_of_getElem? hi)
    have hkeeps := WorkerPc.step_judged hcert h.state hstands hnew hcall
    exact h.moved (QueueThread.Stands.mono hkeeps.decisions) hkeeps.rows _ hkeeps.next
  | heartbeat hi hjobs =>
    exact h.changed (QueueThread.Stands.mono (.of_eq rfl)) (h.state.of_eq rfl (.of_eq rfl))
  | crash i => exact h.moved (fun _ ht => ht) h.state i trivial

theorem queue_judged (hcert : Certifies o G) (hinherit : Inherited G) {s : QueueState}
    (h : (queueBare o).Reach (fun s a => s.filesNew a = true) s) : RowsJudged G s.store := by
  refine (h.invariant (I := fun s =>
    Shared (RowsJudged G) (QueueThread.Stands G) s.store s.threads) ?_ ?_).state
  · intro s h0
    refine ⟨fun id row hrow => ?_, by simp [h0.1]⟩
    rw [h0.2 id] at hrow
    cases hrow
  · intro s a s' hinv hnew hstep
    exact QueueCall.judged hcert hinherit (queueStep_call hstep) hnew hinv

end Given

/-! ## Decisions of loaded documents -/

section Yaml

variable [GoStd] {e : Engine}

/-- The decision is one of the document that the submission selects. -/
def YamlRuling (e : Engine) (x : SubmissionIdentity) (dec : PolicyDecision) : Prop :=
  ∃ sub doc, identityOf sub = x ∧ e.lookup sub = .ok doc ∧
    dec.policy = { id := doc.metadata.id, version := doc.metadata.version } ∧
    ValidValue dec.decision

theorem certifies_yaml {o : Orchestrator} (hsound : e.Sound) (hpolicy : o.policy = yamlEngine e) :
    Certifies o (YamlRuling e) := by
  intro env sub results merged dec h
  have hruled : e.Rules sub dec := by
    unfold Orchestrator.evaluate at h
    rw [hpolicy] at h
    split at h
    · rename_i hmerge
      cases hmerge
      exact hsound.evaluateMerged h
    · exact hsound.evaluate h
  obtain ⟨d, hdoc, habout, hpol, hvalid⟩ := hruled
  exact ⟨habout, sub, d.doc, rfl, hdoc, hpol, hvalid⟩

theorem inherited_yaml : Inherited (YamlRuling e) := by
  intro x prior req sub randHex now hreq hprior
  obtain ⟨sub', doc, hx, hdoc, hpolicy, -⟩ := hprior
  refine ⟨sub', doc, hx, hdoc, hpolicy, ?_⟩
  unfold checkAdjudication at hreq
  split at hreq
  · cases hreq
  · rename_i hallowed
    show req.decision ∈ [PolicyDecisionValue.allow, .review, .deny, .defer]
    by_cases hallow : req.decision = .allow
    · simp [hallow]
    · have hdeny : req.decision = .deny := by
        by_contra hne
        exact hallowed ⟨hallow, hne⟩
      simp [hdeny]

/-- What the client finds. -/
structure Decided (e : Engine) (s : MemoryStore) (sub : Submission) (doc : ValidDocument)
    (dec : PolicyDecision) : Prop where
  named : sub.decisionID = some dec.id
  read : getDecision none s dec.id = .ok dec
  about : dec.submissionID = sub.id
  selected : e.lookup sub = .ok doc.doc
  policy : dec.policy = { id := doc.doc.metadata.id, version := doc.doc.metadata.version }
  final : dec.decision ∈ [PolicyDecisionValue.allow, .review, .deny]

theorem RowsJudged.decided {s : MemoryStore} (h : RowsJudged (YamlRuling e) s) (hsound : e.Sound)
    {id : String} {sub : Submission} (hget : getSubmission none s id = .ok sub)
    (hdone : sub.status = .completed) (hreason : sub.completionReason = some .decisionProduced) :
    ∃ doc dec, Decided e s sub doc dec := by
  obtain ⟨decID, dec, hid, hfiled, hfinal⟩ :=
    (h.get (answerWith_ok.mp hget).2).produced hdone hreason
  obtain ⟨sub', doc, hsame, hdoc, hpolicy, hvalid⟩ := hfiled.ruled
  have hlookup : e.lookup sub = .ok doc := by
    have href : sub'.policyRef = sub.policyRef := congrArg SubmissionIdentity.policyRef hsame
    rwa [Engine.lookup, ← href]
  obtain ⟨d, rfl⟩ := hsound.valid hdoc
  -- decisions are filed under their own ids
  have hdecID : dec.id = decID := by
    obtain ⟨row, hrow, rfl⟩ := Option.map_eq_some_iff.mp hfiled.get
    rw [Stored.copy_eq, s.decisions.keyed decID row hrow]
  subst hdecID
  refine ⟨d, dec, hid, answerWith_ok.mpr ⟨rfl, hfiled.get⟩, hfiled.about, hlookup, hpolicy, ?_⟩
  simp only [ValidValue, List.mem_cons, List.not_mem_nil, or_false] at hvalid ⊢
  tauto

variable [GoYaml] {o : Orchestrator} {dir : String} {es : List DirEntry}

/-- **A completed submission names a final decision of its policy**, in
local mode. -/
theorem local_outcome_decided (hload : loadEngine dir (.ok es) = .ok e)
    (hpolicy : o.policy = yamlEngine e) {s : LocalState}
    (h : (localBare o).Reach (fun s a => s.filesNew a = true) s) {id : String} {sub : Submission}
    (hget : getSubmission none s.world.store id = .ok sub) (hdone : sub.status = .completed)
    (hreason : sub.completionReason = some .decisionProduced) :
    ∃ doc dec, Decided e s.world.store sub doc dec :=
  have hsound := loadEngine_sound hload
  (local_judged (certifies_yaml hsound hpolicy) inherited_yaml h).decided hsound hget hdone hreason

/-- **A completed submission names a final decision of its policy**, in
queue mode, for any number of processes. -/
theorem queue_outcome_decided (hload : loadEngine dir (.ok es) = .ok e)
    (hpolicy : o.policy = yamlEngine e) {s : QueueState}
    (h : (queueBare o).Reach (fun s a => s.filesNew a = true) s) {id : String} {sub : Submission}
    (hget : getSubmission none s.store id = .ok sub) (hdone : sub.status = .completed)
    (hreason : sub.completionReason = some .decisionProduced) :
    ∃ doc dec, Decided e s.store sub doc dec :=
  have hsound := loadEngine_sound hload
  (queue_judged (certifies_yaml hsound hpolicy) inherited_yaml h).decided hsound hget hdone hreason

end Yaml

/-! ## Runs to evaluate -/

/-- The directory that the documents of `Orchestrator.plain` are in. -/
def plainEntries : List DirEntry :=
  [{ name := "default.yaml", path := "default.yaml", content := .ok "default" }]

def plainEngine : Engine where
  policies := Finmap.singleton "default" (.plain "default")
  dir := ""

theorem loadEngine_plain :
    @loadEngine GoStd.plain GoYaml.plain "" (.ok plainEntries) = .ok plainEngine := rfl

def decidedRequest : CreateRequest where
  artifact := { purl := some "pkg:npm/a@1" }
  requestedCapabilities := ["scan"]
  policyRef := some " default "

/-- A submission is scanned, and its decision overruled. -/
theorem local_outcome_decided_overruled :
    ∃ s sub doc dec, (@localBare GoStd.plain (@Orchestrator.plain GoStd.plain)).Reach
        (fun s a => s.filesNew a = true) s ∧
      getSubmission none s.world.store "sub_a" = .ok sub ∧ sub.decisionID = some "dec_b" ∧
      @Decided GoStd.plain plainEngine s.world.store sub doc dec := by
  let _ := GoStd.plain
  let _ := GoYaml.plain
  let acts : List LocalAction :=
    [.create decidedRequest "h" "sub_a" 0, .handler 0 {}, .handler 0 {}, .handler 0 {},
      .take 0 scanEnv] ++
      List.replicate 14 (.run 1 {}) ++ List.replicate 8 (.run 1 { order := ["res_a"] }) ++
      [.adjudicate "sub_a" { decision := .deny }] ++
      List.replicate 5 (.handler 2 { randHex := "b" })
  have hrun : ((localBare Orchestrator.plain).run (fun s a => s.filesNew a = true) acts
      LocalState.fresh).map (fun s => (s.world.store.getSubmission "sub_a").map fun sub =>
        (sub.status, sub.completionReason, sub.decisionID)) =
      some (some (.completed, some .decisionProduced, some "dec_b")) := by
    decide +kernel
  have h0 : (localBare Orchestrator.plain).Reach (fun s a => s.filesNew a = true) .fresh :=
    .init ⟨rfl, fun _ => rfl⟩
  obtain ⟨s, hs, hsub⟩ := h0.of_run_map hrun
  obtain ⟨sub, hget, hrest⟩ := Option.map_eq_some_iff.mp hsub
  simp only [Prod.mk.injEq] at hrest
  have hread : getSubmission none s.world.store "sub_a" = .ok sub := answerWith_ok.mpr ⟨rfl, hget⟩
  obtain ⟨doc, dec, hdec⟩ :=
    local_outcome_decided loadEngine_plain rfl hs hread hrest.1 hrest.2.1
  exact ⟨s, sub, doc, dec, hs, hread, hrest.2.2, hdec⟩

/-- The same in queue mode. -/
theorem queue_outcome_decided_overruled :
    ∃ s sub doc dec, (@queueBare GoStd.plain (@Orchestrator.plain GoStd.plain)).Reach
        (fun s a => s.filesNew a = true) s ∧
      getSubmission none s.store "sub_a" = .ok sub ∧ sub.decisionID = some "dec_b" ∧
      @Decided GoStd.plain plainEngine s.store sub doc dec := by
  let _ := GoStd.plain
  let _ := GoYaml.plain
  let acts : List QueueAction :=
    [.boot {} "w" "src", .create 0 decidedRequest "h" "sub_a" 0, .handler 0 {}, .handler 0 {},
      .handler 0 {}, .start 0 0, .worker 1 scanEnv {}, .worker 1 scanEnv { order := ["sub_a"] }] ++
      List.replicate 15 (.worker 1 scanEnv {}) ++
      List.replicate 8 (.worker 1 scanEnv { order := ["res_a"] }) ++
      [.adjudicate 0 "sub_a" { decision := .deny }] ++
      List.replicate 5 (.handler 2 { randHex := "b" })
  have hrun : ((queueBare Orchestrator.plain).run (fun s a => s.filesNew a = true) acts
      { store := {}, gateways := [], threads := [], issued := [] }).map (fun s =>
        (s.store.getSubmission "sub_a").map fun sub =>
          (sub.status, sub.completionReason, sub.decisionID)) =
      some (some (.completed, some .decisionProduced, some "dec_b")) := by
    decide +kernel
  have h0 : (queueBare Orchestrator.plain).Reach (fun s a => s.filesNew a = true)
      { store := {}, gateways := [], threads := [], issued := [] } :=
    .init ⟨rfl, fun _ => rfl⟩
  obtain ⟨s, hs, hsub⟩ := h0.of_run_map hrun
  obtain ⟨sub, hget, hrest⟩ := Option.map_eq_some_iff.mp hsub
  simp only [Prod.mk.injEq] at hrest
  have hread : getSubmission none s.store "sub_a" = .ok sub := answerWith_ok.mpr ⟨rfl, hget⟩
  obtain ⟨doc, dec, hdec⟩ :=
    queue_outcome_decided loadEngine_plain rfl hs hread hrest.1 hrest.2.1
  exact ⟨s, sub, doc, dec, hs, hread, hrest.2.2, hdec⟩

end Scintx.System
