/-
Scintx.Orchestrator.Events — the CloudEvents a run of `Process` emits.

A consumer sees a submission through its events only. `Account` is what
a run leaves behind for such a reader: the events its own steps append
to the store, with the providers it selected and the decisions it
stored, to compare them with. Around the run anything may happen
(`Happening.others`) that does not move the submission's status, so the
events of other runs may stand between those of this one.

`Pc.Tells` says for each place of the machine what has been told there,
`pcStep_tells` that every step keeps it. At the end (`Concluded`) the
account is complete but for one branch: a decision to DEFER is stored
and never announced as a decision. `events_announced_iff` says that
this is the only gap.

A run that selects providers waits for them, so that it ends is a
property of its own: `Run.follows_wellFounded` (no run takes infinitely
many steps) and `Run.step_total` (a run that has not returned can move).
-/
import Scintx.Orchestrator.SingleRun

namespace Scintx.Orchestrator

open Scintx.Lib Scintx.Api Scintx.Store

/-! ## Kinds of events -/

inductive EventKind where
  | created
  | provider
  | decision
  | final
  deriving DecidableEq, Repr

/-- The types of a kind, without `org.eclipse.scintx.` and `.v1`. -/
def EventKind.types : EventKind → List String
  | .created => ["submission.created"]
  | .provider =>
    ["provider.invocation.started", "provider.result.completed", "provider.result.error",
      "provider.result.timeout"]
  | .decision => ["policy-decision.created"]
  | .final => ["submission.completed", "submission.failed", "submission.deferred"]

def Emission.hasKind (k : EventKind) (e : Emission) : Bool :=
  k.types.any fun t => e.type = "org.eclipse.scintx." ++ t ++ ".v1"

theorem submissionEvent_hasKind (k : EventKind) (t subID : String)
    (entries : List (String × String)) :
    (submissionEvent t subID entries).hasKind k = decide (t ∈ k.types) := by
  rw [Bool.eq_iff_iff, Emission.hasKind, List.any_eq_true, decide_eq_true_iff]
  constructor
  · intro h
    obtain ⟨u, hu, heq⟩ := h
    have heq : "org.eclipse.scintx." ++ t ++ ".v1" = "org.eclipse.scintx." ++ u ++ ".v1" :=
      of_decide_eq_true heq
    rw [String.append_left_inj, String.append_right_inj] at heq
    exact heq ▸ hu
  · intro h
    exact ⟨t, h, decide_eq_true rfl⟩

/-! ## What a run has to tell -/

def createdEvent (subID : String) : Emission :=
  submissionEvent "submission.created" subID [("status", SubmissionStatus.running.text)]

def invocationEvent (subID : String) (sel : SelectedProvider) : Emission :=
  submissionEvent "provider.invocation.started" subID
    [("provider_id", sel.provID), ("capability", sel.capability.id)]

def decisionEvent (subID : String) (d : PolicyDecision) : Emission :=
  submissionEvent "policy-decision.created" subID
    [("decision_id", d.id), ("decision", d.decision.text)]

/-- The two events of goroutine `i`. -/
def callEvents (o : Orchestrator) (env : RunEnv) (subID : String) (i : Nat)
    (sel : SelectedProvider) : List Emission :=
  [invocationEvent subID sel, resultEvent subID sel.provID (outcome o env subID i)]

/-- The event that ends a run. -/
def endEvent (subID : String) (st : SubmissionStatus) (entries : List (String × String)) :
    Emission :=
  submissionEvent ("submission." ++ st.text) subID entries

/-- Every event is about the submission and of kind `k`. -/
def AllOfKind (subID : String) (k : EventKind) (es : List Emission) : Prop :=
  ∀ e ∈ es, e.subject = subID ∧ ∀ k', e.hasKind k' = decide (k' = k)

theorem createdEvent_kind (subID : String) : AllOfKind subID .created [createdEvent subID] := by
  intro e he
  obtain rfl := List.mem_singleton.mp he
  refine ⟨rfl, fun k => ?_⟩
  rw [createdEvent, submissionEvent_hasKind]
  cases k <;> decide

theorem callEvents_kind (o : Orchestrator) (env : RunEnv) (subID : String) (i : Nat)
    (sel : SelectedProvider) : AllOfKind subID .provider (callEvents o env subID i sel) := by
  intro e he
  simp only [callEvents, List.mem_cons, List.not_mem_nil, or_false] at he
  rcases he with rfl | rfl
  · refine ⟨rfl, fun k => ?_⟩
    rw [invocationEvent, submissionEvent_hasKind]
    cases k <;> decide
  · refine ⟨rfl, fun k => ?_⟩
    -- the kind is read off the type, which the added entry leaves alone
    have htype : (resultEvent subID sel.provID (outcome o env subID i)).hasKind k =
        decide (resultEventType (outcome o env subID i).execution.status ∈ k.types) :=
      submissionEvent_hasKind k _ subID []
    rw [htype]
    unfold resultEventType
    split <;> cases k <;> decide

theorem decisionEvent_kind (subID : String) (ds : List PolicyDecision) :
    AllOfKind subID .decision (ds.map (decisionEvent subID)) := by
  intro e he
  obtain ⟨d, -, rfl⟩ := List.mem_map.mp he
  refine ⟨rfl, fun k => ?_⟩
  rw [decisionEvent, submissionEvent_hasKind]
  cases k <;> decide

theorem endEvent_kind (subID : String) {st : SubmissionStatus} (hst : isTerminal st = true)
    (entries : List (String × String)) : AllOfKind subID .final [endEvent subID st entries] := by
  intro e he
  obtain rfl := List.mem_singleton.mp he
  refine ⟨rfl, fun k => ?_⟩
  rw [endEvent, submissionEvent_hasKind]
  cases st with
  | accepted | running => cases hst
  | completed | failed | deferred => cases k <;> decide

theorem AllOfKind.filter {subID : String} {k : EventKind} {es : List Emission}
    (h : AllOfKind subID k es) (k' : EventKind) :
    es.filter (·.hasKind k') = if k' = k then es else [] := by
  split
  · rename_i heq
    exact List.filter_eq_self.mpr fun e he => by rw [(h e he).2 k', heq]; simp
  · rename_i hne
    exact List.filter_eq_nil_iff.mpr fun e he => by rw [(h e he).2 k']; simp [hne]

/-- What the caller of `Emit` chose of an event. -/
def emissionOf (e : CloudEvent) : Emission :=
  { type := e.type, subject := e.subject, data := e.data }

/-- What the store's log gained. -/
def World.appended (w w' : World) : List Emission :=
  (w'.store.events.drop w.store.events.length).map emissionOf

structure Account where
  events : List Emission := []
  selected : List SelectedProvider := []
  decisions : List PolicyDecision := []

/-- One more event. -/
def Account.tell (a : Account) (e : Emission) : Account :=
  { a with events := a.events ++ [e] }

/-- One more decision. -/
def Account.decide (a : Account) (d : PolicyDecision) : Account :=
  { a with decisions := a.decisions ++ [d] }

def Account.add (a : Account) (events : List Emission) (selected : List SelectedProvider)
    (decisions : List PolicyDecision) : Account where
  events := a.events ++ events
  selected := a.selected ++ selected
  decisions := a.decisions ++ decisions

/-- The account tells the run as it was, decisions apart: the submission
was created, then every selected provider was called and gave its
result, and last came the end, which is the status stored. -/
structure Announced (o : Orchestrator) (env : RunEnv) (subID : String)
    (status : Option SubmissionStatus) (a : Account) : Prop where
  known : ∀ e ∈ a.events, e.subject = subID ∧ ∃ k, e.hasKind k = true
  first : a.events.head? = some (createdEvent subID)
  once : a.events.filter (·.hasKind .created) = [createdEvent subID]
  calls : Interleaves (a.selected.mapIdx (callEvents o env subID))
    (a.events.filter (·.hasKind .provider))
  last : ∃ e st, a.events.getLast? = some e ∧ a.events.filter (·.hasKind .final) = [e] ∧
    status = some st ∧ e.type = "org.eclipse.scintx.submission." ++ st.text ++ ".v1"

/-- Every decision the run stored was announced once, with its id. -/
def DecisionsAnnounced (subID : String) (a : Account) : Prop :=
  a.events.filter (·.hasKind .decision) = a.decisions.map (decisionEvent subID)

instance (subID : String) (a : Account) : Decidable (DecisionsAnnounced subID a) :=
  inferInstanceAs (Decidable (_ = _))

/-! ## A run among others -/

def Pc.decides : Pc → List PolicyDecision
  | .putDecision _ decision => [decision]
  | _ => []

def Run.decides (r : Run) : List PolicyDecision :=
  if r.outbox = [] then r.pc.decides else []

structure Watched where
  world : World
  run : Run
  account : Account := {}

inductive Happening where
  | run (ch : Choice)
  /-- Whatever else goes on at the gateway. -/
  | others (w : World)

/-- No store call of the run fails, its context is not cancelled before
it has begun, and nothing else moves the status of its submission. -/
def Watched.Steady (s : Watched) : Happening → Prop
  | .run ch => ch.storeErr = none ∧ (s.run.pc.stage = .fresh → ch.cancelled = none)
  | .others w => w.status s.run.subID = s.world.status s.run.subID

instance (s : Watched) : (hap : Happening) → Decidable (s.Steady hap)
  | .run _ => inferInstanceAs (Decidable (_ ∧ _))
  | .others _ => inferInstanceAs (Decidable (_ = _))

section Given

variable [GoStd]

def Pc.selects (o : Orchestrator) (ch : Choice) (w : World) : Pc → List SelectedProvider
  | .hydrate sub =>
    match hydrateLocalBlob w.store ch.storeErr (canonicalArtifact sub.artifact) with
    | .error _ => []
    | .ok artifact => o.selected sub artifact
  | _ => []

def Run.selects (o : Orchestrator) (ch : Choice) (w : World) (r : Run) : List SelectedProvider :=
  if r.outbox = [] then r.pc.selects o ch w else []

def Watched.step (o : Orchestrator) (env : RunEnv) : Happening → Watched → Option Watched
  | .run ch, s =>
    (s.run.step o env ch s.world).map fun (w, r) =>
      { world := w
        run := r
        account := s.account.add (s.world.appended w) (s.run.selects o ch s.world) s.run.decides }
  | .others w, s => some { s with world := w }

/-- A run of `Process`, from its start on, among others. -/
def watchedSys (o : Orchestrator) (env : RunEnv) (w₀ : World) (subID : String) :
    Sys Watched Happening where
  init s := s = { world := w₀, run := { subID := subID } }
  step := Watched.step o env

end Given

/-! ## Where the account stands -/

/-- What goroutine `i` has told. -/
def goEvents (o : Orchestrator) (env : RunEnv) (subID : String) (i : Nat)
    (g : SelectedProvider × GoPc) : List Emission :=
  match g.2 with
  | .start => []
  | .done => callEvents o env subID i g.1
  | _ => [invocationEvent subID g.1]

/-- The providers have been heard. -/
def Heard (o : Orchestrator) (env : RunEnv) (subID : String) (a : Account) : Prop :=
  ∃ calls, a = { events := createdEvent subID :: calls, selected := a.selected } ∧
    Interleaves (a.selected.mapIdx (callEvents o env subID)) calls

/-- Only the end remains to be told. -/
inductive Concluded (o : Orchestrator) (env : RunEnv) (subID : String) : Account → Prop
  | heard {a : Account} (h : Heard o env subID a) : Concluded o env subID a
  | deferred {a : Account} {d : PolicyDecision} (h : Heard o env subID a)
      (hd : d.decision = .defer) : Concluded o env subID (a.decide d)
  | decided {a : Account} {d : PolicyDecision} (h : Heard o env subID a)
      (hd : d.decision ≠ .defer) :
      Concluded o env subID ((a.decide d).tell (decisionEvent subID d))

/-- What is told at each place, what is about to be emitted included. -/
def Pc.Tells (o : Orchestrator) (env : RunEnv) (subID : String)
    (status : Option SubmissionStatus) (a : Account) : Pc → Prop
  | .checkCtx | .getSubmission => a = {} ∧ status ≠ none
  | .putRunning _ => a = {}
  | .hydrate _ => a = { events := [createdEvent subID] } ∧ status = some .running
  | .fanOut _ _ gos _ => status = some .running ∧
      (∀ (i : Nat) sel (pc : GoPc), gos[i]? = some (sel, pc) → pc.Sound o env subID i) ∧
      ∃ calls, a = { events := createdEvent subID :: calls, selected := gos.map Prod.fst } ∧
        Interleaves (gos.mapIdx (goEvents o env subID)) calls
  | .checkCtxEmpty _ | .checkCtxJoined _ | .getSubmissionAgain _ =>
      status = some .running ∧ Heard o env subID a
  | .putResultIDs sub => sub.status = .running ∧ Heard o env subID a
  | .getResults _ | .putMerged _ _ _ | .evaluate _ _ _ | .putDecision _ _ => Heard o env subID a
  | .putDeferred _ _ | .complete _ _ _ | .putFailed _ _ | .interruptedPut _ _ =>
      Concluded o env subID a
  | .interruptedGet _ => status = some .running ∧ Concluded o env subID a
  | .returned _ => ∃ b st entries, Concluded o env subID b ∧ status = some st ∧
      isTerminal st = true ∧ a = b.tell (endEvent subID st entries)

/-! ## Every step tells what it does -/

theorem World.appended_same {w w' : World} (h : w'.store.events = w.store.events) :
    w.appended w' = [] := by
  rw [World.appended, h, List.drop_length, List.map_nil]

theorem World.appended_emit (w : World) (randHex : String) (now : Time) (e : Emission) :
    w.appended (w.emit none randHex now e) = [e] := by
  simp only [World.appended, World.emit, MemoryStore.appendEvent, if_pos, List.drop_left]
  rfl

theorem Account.add_nil (a : Account) : a.add [] [] [] = a := by
  simp [Account.add]

theorem Account.add_event (a : Account) (e : Emission) : a.add [e] [] [] = a.tell e := by
  simp [Account.add, Account.tell]

theorem Account.add_decision (a : Account) (d : PolicyDecision) :
    a.add [] [] [d] = a.decide d := by
  simp [Account.add, Account.decide]

theorem Account.add_announced (a : Account) (d : PolicyDecision) (e : Emission) :
    a.add [e] [] [d] = (a.decide d).tell e := by
  simp [Account.add, Account.decide, Account.tell]

section Given

variable [GoStd] {o : Orchestrator} {env : RunEnv} {ch : Choice} {subID : String} {w w' : World}
  {a : Account}

/-- A goroutine tells its start and its result. -/
theorem goStep_tells (hstore : ch.storeErr = none) {artifact : Artifact} {i : Nat}
    {sel : SelectedProvider} {ids ids' : List String} {pc pc' : GoPc}
    (hs : pc.Sound o env subID i)
    (h : goStep o env ch subID artifact i sel w ids pc = some (w', ids', pc')) :
    (w.appended w' = [] ∧
      goEvents o env subID i (sel, pc') = goEvents o env subID i (sel, pc)) ∨
    ∃ e, w.appended w' = [e] ∧
      goEvents o env subID i (sel, pc') = goEvents o env subID i (sel, pc) ++ [e] := by
  cases goStep_move h with
  | start =>
    rw [hstore]
    exact .inr ⟨_, World.appended_emit .., rfl⟩
  | reported res =>
    obtain rfl : res = outcome o env subID i := hs
    rw [hstore]
    exact .inr ⟨_, World.appended_emit .., rfl⟩
  | notStored res hfail => exact absurd hstore hfail
  | _ => exact .inl ⟨World.appended_same rfl, rfl⟩

/-- A goroutine holds no result but its outcome. -/
theorem goStep_sound (hstore : ch.storeErr = none) {artifact : Artifact} {i : Nat}
    {sel : SelectedProvider} {ids ids' : List String} {pc pc' : GoPc}
    (hs : pc.Sound o env subID i)
    (h : goStep o env ch subID artifact i sel w ids pc = some (w', ids', pc')) :
    pc'.Sound o env subID i := by
  rcases goStep_phase hstore hs h with ⟨-, rfl, -⟩ | ⟨-, -, hs', -⟩
  · rfl
  · exact hs'

/-- Goroutine `i` moves. -/
theorem Pc.Tells.go (hstore : ch.storeErr = none) {sub : Submission} {artifact : Artifact}
    {gos : List (SelectedProvider × GoPc)} {i : Nat} {sel : SelectedProvider}
    {ids ids' : List String} {pc pc' : GoPc} {status : Option SubmissionStatus}
    (ht : (Pc.fanOut sub artifact gos ids).Tells o env subID status a)
    (hi : gos[i]? = some (sel, pc))
    (h : goStep o env ch subID artifact i sel w ids pc = some (w', ids', pc')) :
    (Pc.fanOut sub artifact (gos.set i (sel, pc')) ids').Tells o env subID status
      (a.add (w.appended w') [] []) := by
  obtain ⟨hrun, hsound, calls, rfl, hcalls⟩ := ht
  refine ⟨hrun, GoPc.sound_set hsound (goStep_sound hstore (hsound i sel pc hi) h), ?_⟩
  have hsel : (gos.set i (sel, pc')).map Prod.fst = gos.map Prod.fst := by
    rw [List.map_set, set_eq_self]
    rw [List.getElem?_map, hi]
    rfl
  have hsaid : (gos.mapIdx (goEvents o env subID))[i]? =
      some (goEvents o env subID i (sel, pc)) := by
    rw [List.getElem?_mapIdx, hi]
    rfl
  rw [hsel, List.mapIdx_set]
  rcases goStep_tells hstore (hsound i sel pc hi) h with ⟨hnone, hsame⟩ | ⟨e, hone, hmore⟩
  · refine ⟨calls, by rw [hnone, Account.add_nil], ?_⟩
    rw [hsame, set_eq_self hsaid]
    exact hcalls
  · refine ⟨calls ++ [e], by simp [hone, Account.add], ?_⟩
    rw [hmore]
    exact hcalls.write hsaid e

omit [GoStd] in
/-- The goroutines are started. -/
theorem Pc.Tells.fan {sub : Submission} {artifact : Artifact} (sels : List SelectedProvider) :
    (Pc.fanOut sub artifact (sels.map fun sel => (sel, .start)) []).Tells o env subID
      (some .running) { events := [createdEvent subID], selected := sels } := by
  refine ⟨rfl, GoPc.sound_start sels, [], by simp [Function.comp_def], ?_⟩
  have hnone : (sels.map fun sel => (sel, GoPc.start)).mapIdx (goEvents o env subID) =
      List.replicate sels.length [] := by
    refine List.ext_getElem (by simp) fun i h₁ h₂ => ?_
    simp [goEvents]
  rw [hnone]
  exact .start _

omit [GoStd] in
/-- All goroutines are done. -/
theorem Pc.Tells.joined {sub : Submission} {artifact : Artifact}
    {gos : List (SelectedProvider × GoPc)} {ids : List String} {status : Option SubmissionStatus}
    (ht : (Pc.fanOut sub artifact gos ids).Tells o env subID status a)
    (hall : ∀ g ∈ gos, g.2 = .done) : status = some .running ∧ Heard o env subID a := by
  obtain ⟨hrun, -, calls, rfl, hcalls⟩ := ht
  refine ⟨hrun, calls, rfl, ?_⟩
  have hdone : gos.mapIdx (goEvents o env subID) =
      (gos.map Prod.fst).mapIdx (callEvents o env subID) := by
    refine List.ext_getElem (by simp) fun i h₁ h₂ => ?_
    rw [List.length_mapIdx] at h₁
    have hi := hall _ (List.getElem_mem h₁)
    simp only [List.getElem_mapIdx, List.getElem_map, goEvents, hi]
  rwa [← hdone]

omit [GoStd] in
/-- A run that has called nobody. -/
theorem heard_none : Heard o env subID { events := [createdEvent subID] } :=
  ⟨[], rfl, .start 0⟩

/-- **What a step tells.** -/
theorem pcStep_tells (hstore : ch.storeErr = none) {pc pc' : Pc} {out : List Emission}
    (hbegun : pc.stage = .fresh → ch.cancelled = none) (howns : pc.Owns subID)
    (ht : pc.Tells o env subID (w.status subID) a)
    (h : pcStep o env ch subID w pc = some (w', pc', out)) :
    pc'.Tells o env subID (w'.status subID)
      (a.add (w.appended w' ++ out) (pc.selects o ch w) pc.decides) := by
  -- nothing but `Emit` appends to the log
  have logged (hw : w'.store.events = w.store.events) : w.appended w' ++ out = out := by
    rw [World.appended_same hw, List.nil_append]
  -- a step that neither emits nor selects nor decides
  have quiet (hw : w'.store.events = w.store.events) (hout : out = [])
      (hsel : pc.selects o ch w = []) (hdec : pc.decides = []) :
      a.add (w.appended w' ++ out) (pc.selects o ch w) pc.decides = a := by
    rw [logged hw, hout, hsel, hdec, Account.add_nil]
  -- a step that tells the end
  have ending {e : Emission} (hw : w'.store.events = w.store.events) (hout : out = [e])
      (hsel : pc.selects o ch w = []) (hdec : pc.decides = []) :
      a.add (w.appended w' ++ out) (pc.selects o ch w) pc.decides = a.tell e := by
    rw [logged hw, hout, hsel, hdec, Account.add_event]
  cases pcStep_move hstore h with
  | cancelled hcan =>
    rw [hbegun rfl] at hcan
    cases hcan
  | notFound hget => exact absurd (getSubmission_none hget) ht.2
  | disappeared ids hget | interruptedMissing cause hget =>
    have hmissing := (getSubmission_none hget).symm.trans ht.1
    cases hmissing
  | interruptedLate cause hget hterm =>
    have hrun := Option.some.inj ((getSubmission_some hget).2.symm.trans ht.1)
    rw [hrun] at hterm
    cases hterm
  | start | joined | weigh | merge | mergeStored | rule =>
    rw [quiet rfl rfl rfl rfl]
    exact ht
  | load hget =>
    rw [quiet rfl rfl rfl rfl]
    exact ht.1
  | mark sub =>
    obtain rfl := howns sub rfl
    obtain rfl : a = {} := ht
    rw [logged rfl]
    exact ⟨rfl, @World.status_put_self w _ { sub with status := .running } rfl⟩
  | unreadable hyd =>
    obtain ⟨rfl, hrun⟩ := ht
    rw [quiet rfl rfl (by simp only [Pc.selects, hyd]) rfl]
    exact .heard heard_none
  | ineligible hyd hnone =>
    obtain ⟨rfl, hrun⟩ := ht
    rw [quiet rfl rfl (by simp only [Pc.selects, hyd, hnone]) rfl]
    exact ⟨hrun, heard_none⟩
  | select hyd =>
    obtain ⟨rfl, hrun⟩ := ht
    rw [logged rfl, hrun]
    simp only [Pc.selects, hyd]
    exact Pc.Tells.fan _
  | cancelledEmpty | cancelledJoined =>
    rw [quiet rfl rfl rfl rfl]
    exact ⟨ht.1, .heard ht.2⟩
  | noProvider | findings =>
    rw [quiet rfl rfl rfl rfl]
    exact .heard ht.2
  | @goroutine sub _ _ _ _ _ _ _ _ hgo hstep =>
    obtain rfl := howns sub rfl
    rw [List.append_nil, World.status_of_submissions (goStep_frame hstep).2]
    exact ht.go hstore hgo hstep
  | join hdone =>
    rw [quiet rfl rfl rfl rfl]
    exact ht.joined hdone
  | reload ids hget =>
    have hrun := Option.some.inj ((getSubmission_some hget).2.symm.trans ht.1)
    rw [quiet rfl rfl rfl rfl]
    exact ⟨hrun, ht.2⟩
  | collect | interruptedLoad =>
    rw [quiet rfl rfl rfl rfl]
    exact ht.2
  | noRuling =>
    rw [quiet rfl rfl rfl rfl]
    exact .heard ht
  | @deferring sub decision hdefer =>
    obtain rfl := howns sub rfl
    rw [logged rfl]
    exact Account.add_decision a decision ▸ .deferred ht hdefer
  | @deciding sub decision hfinal =>
    obtain rfl := howns sub rfl
    rw [logged rfl]
    exact Account.add_announced a decision _ ▸ .decided ht hfinal
  | deferred sub decision =>
    obtain rfl := howns sub rfl
    rw [ending rfl rfl rfl rfl]
    exact ⟨a, .deferred, _, ht, @World.status_put_self w _ (deferred sub decision) rfl, rfl, rfl⟩
  | completed sub reason decisionID =>
    obtain rfl : (settled sub reason decisionID ch.now).id = subID :=
      settled_id.trans (howns sub rfl)
    rw [ending rfl rfl rfl rfl]
    refine ⟨a, .completed, _, ht, ?_, rfl, rfl⟩
    rw [@World.status_put_self w _ (settled sub reason decisionID ch.now) rfl, settled_status]
  | failed sub e =>
    obtain rfl := howns sub rfl
    rw [ending rfl rfl rfl rfl]
    exact ⟨a, .failed, _, ht, @World.status_put_self w _ (ended sub .failed .failed ch.now) rfl,
      rfl, rfl⟩
  | interrupted sub cause =>
    obtain rfl := howns sub rfl
    rw [ending rfl rfl rfl rfl]
    exact ⟨a, .failed, _, ht,
      @World.status_put_self w _ (ended sub .failed .interrupted ch.now) rfl, rfl, rfl⟩

/-! ## Whole runs -/

omit [GoStd] in
theorem Account.add_add (a : Account) (es es' : List Emission) (sels : List SelectedProvider)
    (ds : List PolicyDecision) : (a.add es sels ds).add es' [] [] = a.add (es ++ es') sels ds := by
  simp [Account.add]

structure Watched.Tells (o : Orchestrator) (env : RunEnv) (subID : String) (s : Watched) :
    Prop where
  is : s.run.subID = subID
  owns : s.run.Owns
  tells : s.run.pc.Tells o env subID (s.world.status subID) (s.account.add s.run.outbox [] [])

theorem Watched.Tells.step {s s' : Watched} {hap : Happening} (ht : s.Tells o env subID)
    (hok : s.Steady hap) (h : Watched.step o env hap s = some s') : s'.Tells o env subID := by
  obtain ⟨hid, howns, htells⟩ := ht
  cases hap with
  | others w =>
    cases h
    refine ⟨hid, howns, ?_⟩
    have hkept : w.status s.run.subID = s.world.status s.run.subID := hok
    rw [hid] at hkept
    rw [hkept]
    exact htells
  | run ch =>
    obtain ⟨hstore, hbegun⟩ := hok
    simp only [Watched.step, Option.map_eq_some_iff] at h
    obtain ⟨⟨w', r'⟩, hstep, rfl⟩ := h
    obtain ⟨hid', howns', -⟩ := Run.step_stage hstore howns hstep
    refine ⟨hid'.trans hid, howns', ?_⟩
    rw [Account.add_add]
    cases Run.step_move hstep with
    | emit hout =>
      rw [hstore, World.appended_emit, World.status_of_submissions (World.emit_submissions ..)]
      simp only [Run.selects, Run.decides, hout, List.cons_ne_nil, if_false]
      rwa [hout] at htells
    | call hout hcall =>
      rw [hout, Account.add_nil] at htells
      rw [hid] at hcall
      simp only [Run.selects, Run.decides, hout, if_true]
      exact pcStep_tells hstore hbegun (hid ▸ howns) htells hcall

theorem tells_reach {w₀ : World} (hsub : w₀.status subID ≠ none) {s : Watched}
    (h : (watchedSys o env w₀ subID).Reach Watched.Steady s) : s.Tells o env subID := by
  refine h.invariant ?_ fun s hap s' hinv hok hstep => hinv.step hok hstep
  intro s hs
  obtain rfl : s = _ := hs
  exact ⟨rfl, Pc.owns_of_none rfl, rfl, hsub⟩

omit [GoStd] in
/-- What stands in an account that only lacks its end: every decision but
those to defer was announced. -/
theorem Concluded.events (h : Concluded o env subID a) :
    ∃ calls, Interleaves (a.selected.mapIdx (callEvents o env subID)) calls ∧
      a.events = [createdEvent subID] ++ calls ++
        (a.decisions.filter fun d => d.decision ≠ .defer).map (decisionEvent subID) := by
  cases h with
  | heard h =>
    obtain ⟨calls, ha, hcalls⟩ := h
    refine ⟨calls, hcalls, ?_⟩
    rw [ha]
    simp
  | deferred h hd =>
    obtain ⟨calls, ha, hcalls⟩ := h
    refine ⟨calls, hcalls, ?_⟩
    rw [ha]
    simp [Account.decide, hd]
  | decided h hd =>
    obtain ⟨calls, ha, hcalls⟩ := h
    refine ⟨calls, hcalls, ?_⟩
    rw [ha]
    simp [Account.decide, Account.tell, hd]

omit [GoStd] in
theorem calls_kind {sels : List SelectedProvider} {calls : List Emission}
    (h : Interleaves (sels.mapIdx (callEvents o env subID)) calls) :
    AllOfKind subID .provider calls := by
  intro e he
  obtain ⟨l, hl, hmem⟩ := h.mem he
  obtain ⟨i, hi, rfl⟩ := List.mem_mapIdx.mp hl
  exact callEvents_kind o env subID i _ e hmem

omit [GoStd] in
/-- The events of each kind in an account that is complete. -/
theorem Concluded.of_kind (h : Concluded o env subID a) {st : SubmissionStatus}
    (hst : isTerminal st = true) (entries : List (String × String)) :
    Announced o env subID (some st) (a.tell (endEvent subID st entries)) ∧
    (a.tell (endEvent subID st entries)).events.filter (·.hasKind .decision) =
      (a.decisions.filter fun d => d.decision ≠ .defer).map (decisionEvent subID) := by
  obtain ⟨calls, hcalls, hevents⟩ := h.events
  have hcreated := createdEvent_kind subID
  have hprovider := calls_kind hcalls
  have hdecision := decisionEvent_kind subID
    (a.decisions.filter fun d => d.decision ≠ .defer)
  have hend := endEvent_kind subID hst entries
  have hof (k : EventKind) : (a.tell (endEvent subID st entries)).events.filter (·.hasKind k) =
      (if k = .created then [createdEvent subID] else []) ++
      (if k = .provider then calls else []) ++
      (if k = .decision then
        (a.decisions.filter fun d => d.decision ≠ .defer).map (decisionEvent subID) else []) ++
      (if k = .final then [endEvent subID st entries] else []) := by
    simp only [Account.tell, hevents, List.filter_append, hcreated.filter, hprovider.filter,
      hdecision.filter, hend.filter]
  refine ⟨⟨?_, ?_, ?_, ?_, ?_⟩, by simp [hof]⟩
  · intro e he
    simp only [Account.tell, hevents, List.mem_append] at he
    rcases he with ((he | he) | he) | he
    · exact ⟨(hcreated e he).1, .created, by rw [(hcreated e he).2]; rfl⟩
    · exact ⟨(hprovider e he).1, .provider, by rw [(hprovider e he).2]; rfl⟩
    · exact ⟨(hdecision e he).1, .decision, by rw [(hdecision e he).2]; rfl⟩
    · exact ⟨(hend e he).1, .final, by rw [(hend e he).2]; rfl⟩
  · simp [Account.tell, hevents]
  · simp [hof]
  · simp only [hof]
    simpa [Account.tell] using hcalls
  · refine ⟨endEvent subID st entries, st, by simp [Account.tell], by simp [hof], rfl, ?_⟩
    have hscope : "org.eclipse.scintx." ++ "submission." = "org.eclipse.scintx.submission." := by
      decide
    have htype : (endEvent subID st entries).type =
        "org.eclipse.scintx." ++ ("submission." ++ st.text) ++ ".v1" := rfl
    rw [htype, ← String.append_assoc, hscope]

omit [GoStd] in
/-- A list is kept as a whole exactly if all its members are. -/
theorem map_filter_eq_iff (ds : List PolicyDecision) :
    (ds.filter fun d => d.decision ≠ .defer).map (decisionEvent subID) =
      ds.map (decisionEvent subID) ↔ ∀ d ∈ ds, d.decision ≠ .defer := by
  constructor
  · intro h
    have hlen := congrArg List.length h
    rw [List.length_map, List.length_map, List.length_filter_eq_length_iff] at hlen
    exact fun d hd => of_decide_eq_true (hlen d hd)
  · intro h
    rw [List.filter_eq_self.mpr fun d hd => decide_eq_true (h d hd)]

/-! ## Runs end -/

/-- How many places may follow, the goroutines apart. -/
def Pc.left : Pc → Nat
  | .checkCtx => 13
  | .getSubmission => 12
  | .putRunning _ => 11
  | .hydrate _ => 10
  | .fanOut _ _ _ _ => 9
  | .checkCtxJoined _ => 8
  | .getSubmissionAgain _ => 7
  | .putResultIDs _ => 6
  | .getResults _ => 5
  | .putMerged _ _ _ => 4
  | .evaluate _ _ _ | .checkCtxEmpty _ => 3
  | .putDecision _ _ | .interruptedGet _ => 2
  | .putDeferred _ _ | .complete _ _ _ | .putFailed _ _ | .interruptedPut _ _ => 1
  | .returned _ => 0

/-- How far the goroutines are from their ends. -/
def Pc.goLeft : Pc → Nat
  | .fanOut _ _ gos _ => weigh (fun g => g.2.left) gos
  | _ => 0

/-- A goroutine moves towards its end. -/
theorem goStep_left {artifact : Artifact} {i : Nat} {sel : SelectedProvider}
    {ids ids' : List String} {pc pc' : GoPc}
    (h : goStep o env ch subID artifact i sel w ids pc = some (w', ids', pc')) :
    pc'.left < pc.left := by
  cases goStep_move h <;> simp [GoPc.left]

/-- A call moves the run on, or one of its goroutines. -/
theorem pcStep_left {pc pc' : Pc} {out : List Emission}
    (h : pcStep o env ch subID w pc = some (w', pc', out)) :
    pc'.left < pc.left ∨ pc'.left = pc.left ∧ pc'.goLeft < pc.goLeft := by
  rcases pcStep_cases h with hmove | ⟨err, -, hloss⟩
  · cases hmove with
    | @goroutine _ _ _ _ _ sel _ go' _ hgo hstep =>
      have hmove := weigh_set (fun g : SelectedProvider × GoPc => g.2.left) hgo (sel, go')
      have hlt := goStep_left hstep
      refine .inr ⟨rfl, ?_⟩
      simp only [Pc.goLeft] at hmove ⊢
      omega
    | _ => exact .inl (by simp [Pc.left])
  · cases hloss with
    | @call pc hpc =>
      cases pc with
      | returned => cases hpc
      | _ => exact .inl (by simp [Pc.left])
    | _ => exact .inl (by simp [Pc.left])

/-- `r'` comes next after `r`, in some world. -/
def Run.Follows (o : Orchestrator) (env : RunEnv) (r' r : Run) : Prop :=
  ∃ ch w w', r.step o env ch w = some (w', r')

/-- **No run goes on forever.** -/
theorem Run.follows_wellFounded : WellFounded (Run.Follows o env) := by
  let rank (r : Run) : Nat × Nat × Nat := (r.pc.left, r.pc.goLeft, r.outbox.length)
  refine Subrelation.wf (r := InvImage (Prod.Lex (· < ·) (Prod.Lex (· < ·) (· < ·))) rank) ?_
    (InvImage.wf rank (Prod.lex Nat.lt_wfRel (Prod.lex Nat.lt_wfRel Nat.lt_wfRel)).wf)
  intro r' r h
  obtain ⟨ch, w, w', hstep⟩ := h
  cases Run.step_move hstep with
  | emit hout => exact .right _ (.right _ (by simp [hout]))
  | call _ hcall =>
    rcases pcStep_left hcall with hlt | ⟨heq, hlt⟩
    · exact .left _ _ hlt
    · simp only [InvImage, rank, heq]
      exact .right _ (.left _ _ hlt)

/-- A run that has not returned can move. -/
theorem Run.step_total {r : Run} (h : runFinished r = false) (w : World) :
    ∃ ch : Choice, ch.storeErr = none ∧ ch.cancelled = none ∧ (r.step o env ch w).isSome := by
  unfold Run.step
  cases hout : r.outbox with
  | cons e rest => exact ⟨{}, rfl, rfl, rfl⟩
  | nil =>
    cases hpc : r.pc with
    | returned e =>
      simp only [runFinished, hpc, hout] at h
      cases h
    | fanOut sub artifact gos ids =>
      by_cases hall : (gos.all fun g => g.2.isDone) = true
      · exact ⟨{}, rfl, rfl, by simp only [pcStep, hall]; rfl⟩
      · obtain ⟨g, hg, hnot⟩ := List.all_eq_false.mp (Bool.eq_false_of_not_eq_true hall)
        obtain ⟨i, hi⟩ := List.mem_iff_getElem?.mp hg
        have hgo : g.2 ≠ .done := fun hdone => hnot (hdone ▸ rfl)
        obtain ⟨w', ids', pc', hstep, -⟩ := @goStep_total _ o env sub.id { goroutine := i } rfl
          artifact i g.1 w ids g.2 hgo
        refine ⟨{ goroutine := i }, rfl, rfl, ?_⟩
        rw [@pcStep_fanOut _ o env w r.subID sub artifact { goroutine := i } gos ids g.1 g.2 hi hgo,
          hstep]
        rfl
    | _ =>
      refine ⟨{}, rfl, rfl, ?_⟩
      rw [Option.isSome_map]
      simp only [pcStep]
      repeat' split
      all_goals rfl

/-- **What a run of `Process` tells.** However it is scheduled, whatever
its providers do, and whenever it is cancelled once it has begun: a run
ends, and then its events are `submission.created`, for every selected
provider a start and then a result, and last the end that was stored.
Every decision it stored was announced if and only if none was to
defer. -/
theorem events_announced_iff {w₀ : World} (hsub : w₀.status subID ≠ none) {s : Watched}
    (h : (watchedSys o env w₀ subID).Reach Watched.Steady s) :
    Acc (Run.Follows o env) s.run ∧
    (runFinished s.run = false →
      ∃ ch, s.Steady (.run ch) ∧ (Watched.step o env (.run ch) s).isSome) ∧
    (runFinished s.run = true →
      Announced o env subID (s.world.status subID) s.account ∧
      (DecisionsAnnounced subID s.account ↔ ∀ d ∈ s.account.decisions, d.decision ≠ .defer)) := by
  refine ⟨Run.follows_wellFounded.apply s.run, fun hopen => ?_, fun hend => ?_⟩
  · obtain ⟨ch, hstore, hcan, hstep⟩ := @Run.step_total _ o env s.run hopen s.world
    refine ⟨ch, ⟨hstore, fun _ => hcan⟩, ?_⟩
    rw [Watched.step, Option.isSome_map]
    exact hstep
  · obtain ⟨-, -, htells⟩ := tells_reach hsub h
    unfold runFinished at hend
    split at hend
    · rename_i e hpc hout
      rw [hpc, hout, Account.add_nil] at htells
      obtain ⟨b, st, entries, hconcluded, hstatus, hst, haccount⟩ := htells
      obtain ⟨hannounced, hdecisions⟩ := hconcluded.of_kind hst entries
      rw [haccount, hstatus]
      refine ⟨hannounced, ?_⟩
      rw [DecisionsAnnounced, hdecisions]
      exact map_filter_eq_iff b.decisions
    · cases hend

end Given

/-- A provider fails and the document defers: the decision is stored, and
the run tells of a deferred submission but of no decision. -/
theorem deferral_unannounced :
    ∃ s, (@watchedSys GoStd.plain (@Orchestrator.plain GoStd.plain)
        (RunEnv.plain "a" (.error "down")) scanWorld "sub_a").Reach Watched.Steady s ∧
      runFinished s.run = true ∧ s.account.decisions.map (·.decision) = [.defer] ∧
      s.account.events.map (·.type) =
        ["org.eclipse.scintx.submission.created.v1",
          "org.eclipse.scintx.provider.invocation.started.v1",
          "org.eclipse.scintx.provider.result.error.v1",
          "org.eclipse.scintx.submission.deferred.v1"] ∧
      ¬ DecisionsAnnounced "sub_a" s.account := by
  let _ := GoStd.plain
  have hrun : ((watchedSys Orchestrator.plain (RunEnv.plain "a" (.error "down")) scanWorld
      "sub_a").run Watched.Steady (List.replicate 20 (.run { order := ["res_a0"] }))
      { world := scanWorld, run := { subID := "sub_a" } }).map (fun s =>
        (runFinished s.run, s.account.decisions.map (·.decision),
          s.account.events.map (·.type), decide (DecisionsAnnounced "sub_a" s.account))) =
      some (true, [.defer], ["org.eclipse.scintx.submission.created.v1",
          "org.eclipse.scintx.provider.invocation.started.v1",
          "org.eclipse.scintx.provider.result.error.v1",
          "org.eclipse.scintx.submission.deferred.v1"], false) := by
    decide +kernel
  obtain ⟨s, hreach, hv⟩ := (Sys.Reach.init rfl).of_run_map hrun
  simp only [Prod.mk.injEq, decide_eq_false_iff_not] at hv
  exact ⟨s, hreach, hv⟩

/-- A provider that passes is followed by a decision to review, and that
is announced. -/
theorem events_announced_iff_review :
    ∃ s, (@watchedSys GoStd.plain (@Orchestrator.plain GoStd.plain)
        (RunEnv.plain "a" (.ok { id := "res_b", execution := { status := .completed } }))
        scanWorld "sub_a").Reach Watched.Steady s ∧
      Announced (@Orchestrator.plain GoStd.plain)
        (RunEnv.plain "a" (.ok { id := "res_b", execution := { status := .completed } })) "sub_a"
        (some .completed) s.account ∧
      s.account.decisions.map (·.decision) = [.review] ∧ DecisionsAnnounced "sub_a" s.account := by
  let _ := GoStd.plain
  have hrun : ((watchedSys Orchestrator.plain
      (RunEnv.plain "a" (.ok { id := "res_b", execution := { status := .completed } })) scanWorld
      "sub_a").run Watched.Steady (List.replicate 22 (.run { order := ["res_b"] }))
      { world := scanWorld, run := { subID := "sub_a" } }).map (fun s =>
        (runFinished s.run, s.account.decisions.map (·.decision), s.world.status "sub_a")) =
      some (true, [.review], some .completed) := by
    decide +kernel
  obtain ⟨s, hreach, hv⟩ := (Sys.Reach.init rfl).of_run_map hrun
  simp only [Prod.mk.injEq] at hv
  obtain ⟨hend, hreview, hstatus⟩ := hv
  obtain ⟨hannounced, hiff⟩ := (events_announced_iff (by decide) hreach).2.2 hend
  refine ⟨s, hreach, hstatus ▸ hannounced, hreview, hiff.mpr fun d hd => ?_⟩
  have hmem := List.mem_map_of_mem (f := (·.decision)) hd
  rw [hreview, List.mem_singleton] at hmem
  rw [hmem]
  decide

end Scintx.Orchestrator
