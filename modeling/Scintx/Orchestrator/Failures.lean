/-
Scintx.Orchestrator.Failures — what a run of `Process` leaves behind when
store calls fail.

`Scintx.Orchestrator.Lifecycle` is about runs whose store calls succeed.
Here any call may fail, and the question is what status is stored when
`Process` RETURNS. There are two kinds of calls whose failure ends a
run: those it needs an answer of (`Pc.needs`) and the writes of the
submission (`Pc.writes`). Every other failure is survived: a result, a
merged view or an event is lost, and a blob that cannot be loaded fails
the submission.

`pcStep_returned` is the step lemma. For a run on its own
`process_settles_iff` concludes: if the writes succeed, the status is
final exactly if no needed call failed at a status that was not final.
-/
import Scintx.Orchestrator.SingleRun

namespace Scintx.Orchestrator

open Scintx.Lib Scintx.Api Scintx.Store

/-! ## Calls whose failure ends the run -/

/-- The run cannot go on without an answer of the store call made here. -/
def Pc.needs : Pc → Bool
  | .getSubmission | .getSubmissionAgain _ | .getResults _ => true
  | .putDecision _ _ | .interruptedGet _ => true
  | _ => false

/-- The store call made here is `PutSubmission`. -/
def Pc.writes : Pc → Bool
  | .putRunning _ | .putResultIDs _ | .putDeferred _ _ => true
  | .complete _ _ _ | .putFailed _ _ | .interruptedPut _ _ => true
  | _ => false

/-- A run writes no submission but its own, and no jobs. -/
structure WritesOwn (subID : String) (w w' : World) : Prop where
  admission : w.SameAdmission w'
  submissions : w'.store.submissions = w.store.submissions ∨
    ∃ sub, sub.id = subID ∧ w'.store.submissions = w.store.submissions.put (.of sub)

theorem WritesOwn.refl (subID : String) (w : World) : WritesOwn subID w w :=
  ⟨.refl w, .inl rfl⟩

theorem WritesOwn.isSome {subID : String} {w w' : World} (h : WritesOwn subID w w')
    (hsome : (w.status subID).isSome) : (w'.status subID).isSome := by
  rcases h.submissions with hsame | ⟨sub, rfl, hput⟩
  · rwa [World.status_of_submissions hsame]
  · rw [World.status_put_self hput]
    rfl

section Given

variable [GoStd] {o : Orchestrator} {env : RunEnv} {ch : Choice} {subID : String} {w w' : World}
  {pc pc' : Pc} {out : List Emission}

/-- Whatever fails, a run keeps to its own submission. -/
theorem pcStep_own (howns : pc.Owns subID)
    (h : pcStep o env ch subID w pc = some (w', pc', out)) :
    pc'.Owns subID ∧ WritesOwn subID w w' := by
  rcases pcStep_cases h with hmove | ⟨err, rfl, hloss⟩
  · obtain ⟨howns', hadm, wrote, -, hwrote⟩ := hmove.stage howns
    cases wrote with
    | false => exact ⟨howns', hadm, .inl hwrote⟩
    | true => exact ⟨howns', hadm, .inr hwrote⟩
  · cases hloss with
    | merge sub => exact ⟨Pc.owns_of_copy rfl (howns sub rfl), .refl subID _⟩
    | _ => exact ⟨Pc.owns_of_none rfl, .refl subID _⟩

omit [GoStd] in
theorem Pc.needs_or_writes (h : pc.stops = true) : pc.needs = true ∨ pc.writes = true := by
  cases pc <;> first | exact .inl rfl | exact .inr rfl | cases h

/-- **When `Process` returns** the submission is missing or at rest, or a
call has just failed that the run needed or that was to write it. -/
theorem pcStep_returned (howns : pc.Owns subID) {err : Option String}
    (h : pcStep o env ch subID w pc = some (w', .returned err, out)) :
    Final (w'.status subID) ∨
      (ch.storeErr ≠ none ∧ (pc.needs = true ∨ pc.writes = true) ∧
        w'.store.submissions = w.store.submissions) := by
  cases hstore : ch.storeErr with
  | none =>
    left
    obtain ⟨-, -, wrote, hstep, -⟩ := pcStep_stage hstore howns h
    refine hstep.final fun hdone => ?_
    cases pc with
    | returned => cases h
    | _ => cases hdone
  | some e =>
    right
    refine ⟨by simp, ?_⟩
    cases hpc : pc.storeless with
    | true => cases move_storeless hpc h <;> cases hpc
    | false =>
      obtain ⟨rfl, hloss⟩ := pcStep_loss hstore hpc h
      refine ⟨?_, rfl⟩
      cases hloss with
      | call hstops => exact Pc.needs_or_writes hstops
      | interruptedGet => exact .inl rfl
      | failed | interrupted => exact .inr rfl

/-- A failure of a needed call ends the run and changes nothing. -/
theorem pcStep_needs (hpc : pc.needs = true) (hstore : ch.storeErr ≠ none)
    (h : pcStep o env ch subID w pc = some (w', pc', out)) :
    (∃ err, pc' = .returned err) ∧ w' = w ∧ out = [] := by
  obtain ⟨err, herr⟩ := Option.ne_none_iff_exists'.mp hstore
  have hcalls : pc.storeless = false := by
    cases pc <;> first | rfl | cases hpc
  obtain ⟨rfl, hloss⟩ := pcStep_loss herr hcalls h
  cases hloss with
  | call | interruptedGet => exact ⟨⟨_, rfl⟩, rfl, rfl⟩
  | _ => cases hpc

/-- A failure of the call that the run is about to make ends the run. -/
def Run.relies (r : Run) : Prop :=
  r.outbox = [] ∧ (r.pc.needs = true ∨ r.pc.writes = true)

instance (r : Run) : Decidable r.relies :=
  inferInstanceAs (Decidable (_ ∧ _))

omit [GoStd] in
theorem emit_status (w : World) (storeErr : Option String) (randHex : String) (now : Time)
    (e : Emission) (id : String) : (w.emit storeErr randHex now e).status id = w.status id :=
  World.status_of_submissions (World.emit_submissions ..) id

theorem Run.step_own {r r' : Run} (howns : r.Owns) (h : r.step o env ch w = some (w', r')) :
    r'.subID = r.subID ∧ r'.Owns ∧ WritesOwn r.subID w w' := by
  cases Run.step_move h with
  | emit => exact ⟨rfl, howns, World.emit_sameAdmission .., .inl (World.emit_submissions ..)⟩
  | call _ hcall => exact ⟨rfl, pcStep_own howns hcall⟩

omit [GoStd] in
theorem returned_of_finished {r : Run} (h : runFinished r = true) :
    ∃ err, r.pc = .returned err := by
  unfold runFinished at h
  split at h
  · exact ⟨_, ‹_›⟩
  · cases h

/-- The submission of a run that has returned is missing or at rest. -/
def ReturnsFinal (s : World × Run) : Prop :=
  ∀ err, s.2.pc = .returned err → Final (s.1.status s.2.subID)

/-- A step leaves a final status when it returns, unless a call fails
that the run relies on. -/
theorem ReturnsFinal.step {r r' : Run} (howns : r.Owns) (h : ReturnsFinal (w, r))
    (hkeeps : ch.storeErr ≠ none → r.relies → Final (w.status r.subID))
    (hstep : r.step o env ch w = some (w', r')) : ReturnsFinal (w', r') := by
  cases Run.step_move hstep with
  | emit =>
    intro err hpc
    rw [emit_status]
    exact h err hpc
  | call hout hcall =>
    rintro err rfl
    rcases pcStep_returned howns hcall with hfinal | ⟨hfail, hneeds, hsame⟩
    · exact hfinal
    · rw [World.status_of_submissions hsame]
      exact hkeeps hfail ⟨hout, hneeds⟩

/-! ## A run on its own -/

/-- `PutSubmission` does not fail in the step. -/
def WritesSucceed (s : World × Run) (ch : Choice) : Prop :=
  s.2.outbox = [] → s.2.pc.writes = true → ch.storeErr = none

/-- A call that the run needs fails while the stored status is not
final. -/
def Strands (s : World × Run) (ch : Choice) : Prop :=
  s.2.outbox = [] ∧ s.2.pc.needs = true ∧ ch.storeErr ≠ none ∧ ¬ Final (s.1.status s.2.subID)

instance (s : World × Run) (ch : Choice) : Decidable (WritesSucceed s ch) :=
  inferInstanceAs (Decidable (_ → _ → _))

instance (s : World × Run) (ch : Choice) : Decidable (Strands s ch) :=
  inferInstanceAs (Decidable (_ ∧ _ ∧ _ ∧ _))

/-- What holds along a run on an existing submission. -/
structure OwnRun (subID : String) (s : World × Run) : Prop where
  is : s.2.subID = subID
  owns : s.2.Owns
  present : (s.1.status subID).isSome

theorem OwnRun.step {s s' : World × Run} (h : OwnRun subID s)
    (hstep : s.2.step o env ch s.1 = some s') : OwnRun subID s' := by
  obtain ⟨w, r⟩ := s
  obtain ⟨rfl, howns, hsome⟩ := h
  obtain ⟨hid, howns', hown⟩ := Run.step_own howns hstep
  exact ⟨hid, howns', hown.isSome hsome⟩

/-- After a stranding step there is no further one, and the status is as
it was. -/
theorem Strands.step {s s' : World × Run} (h : Strands s ch)
    (hstep : s.2.step o env ch s.1 = some s') :
    (∀ ch', s'.2.step o env ch' s'.1 = none) ∧ ¬ Final (s'.1.status s'.2.subID) := by
  obtain ⟨w, ⟨id, pc, outbox⟩⟩ := s
  obtain ⟨hout, hneeds, hfail, hno⟩ := h
  dsimp only at hout hneeds hno
  subst hout
  simp only [Run.step, Option.map_eq_some_iff] at hstep
  obtain ⟨⟨w₁, pc₁, out⟩, hpc, heq⟩ := hstep
  obtain ⟨⟨err, rfl⟩, rfl, rfl⟩ := pcStep_needs hneeds hfail hpc
  cases heq
  exact ⟨fun ch' => rfl, hno⟩

/-- The steps of a run that leaves a final status strand nothing. -/
theorem run_of_final {w₀ : World} {id : String} {chs : List Choice} {s s' : World × Run}
    (hrun : (runSys o env w₀ id).run WritesSucceed chs s = some s')
    (hfinal : Final (s'.1.status s'.2.subID)) :
    (runSys o env w₀ id).run (fun s ch => WritesSucceed s ch ∧ ¬ Strands s ch) chs s =
      some s' := by
  induction chs generalizing s with
  | nil => exact hrun
  | cons ch chs ih =>
    simp only [Sys.run] at hrun ⊢
    split at hrun
    · rename_i hwrites
      obtain ⟨s₁, hstep, hrest⟩ := Option.bind_eq_some_iff.mp hrun
      have hkeeps : ¬ Strands s ch := by
        intro hstrands
        obtain ⟨hstuck, hno⟩ := hstrands.step hstep
        -- nothing can follow, so the run ends here
        cases chs with
        | nil =>
          cases hrest
          exact hno hfinal
        | cons ch' chs =>
          simp only [Sys.run, runSys, hstuck, Option.bind_none, ite_self] at hrest
          cases hrest
      rw [if_pos ⟨hwrites, hkeeps⟩, hstep]
      exact ih hrest
    · cases hrun

/-- **When a call of `Process` settles its submission.** For a run on an
existing submission in which every `PutSubmission` succeeds: when it has
returned, the stored status is completed, failed or deferred if and only
if none of its steps is a failure of `GetSubmission`,
`GetResultsForSubmission` or `PutDecision` at a status that is not. -/
theorem process_settles_iff {w₀ : World} (hexists : (w₀.status subID).isSome)
    {chs : List Choice} {s : World × Run}
    (hrun : (runSys o env w₀ subID).run WritesSucceed chs (w₀, { subID := subID }) = some s)
    (hreturned : runFinished s.2 = true) :
    (∃ st, s.1.status subID = some st ∧ isTerminal st = true) ↔
      (runSys o env w₀ subID).run (fun s ch => WritesSucceed s ch ∧ ¬ Strands s ch) chs
        (w₀, { subID := subID }) = some s := by
  have h0 : OwnRun subID (w₀, { subID := subID }) := ⟨rfl, Pc.owns_of_none rfl, hexists⟩
  have hown : OwnRun subID s := by
    refine ((Sys.Reach.init rfl).of_run hrun).invariant (I := OwnRun subID) ?_ ?_
    · rintro s rfl
      exact h0
    · exact fun _ _ _ hinv _ hstep => hinv.step hstep
  obtain ⟨st, hst⟩ := Option.isSome_iff_exists.mp hown.present
  constructor
  · rintro ⟨st', hst', hterm⟩
    refine run_of_final hrun ?_
    rw [hown.is, hst']
    exact final_some hterm
  · intro hsteady
    have hsettled : OwnRun subID s ∧ ReturnsFinal s := by
      refine ((Sys.Reach.init rfl).of_run hsteady).invariant
        (I := fun s => OwnRun subID s ∧ ReturnsFinal s) ?_ ?_
      · rintro s rfl
        exact ⟨h0, fun err hpc => by cases hpc⟩
      · rintro ⟨w, r⟩ ch s' ⟨hown, hret⟩ ⟨hwrites, hkeeps⟩ hstep
        refine ⟨hown.step hstep, hret.step hown.owns (fun hfail hrelies => ?_) hstep⟩
        obtain ⟨hout, hneeds | hput⟩ := hrelies
        · by_contra hno
          exact hkeeps ⟨hout, hneeds, hfail, hno⟩
        · exact absurd (hwrites hout hput) hfail
    obtain ⟨err, hpc⟩ := returned_of_finished hreturned
    refine ⟨st, hst, hsettled.2 err hpc st ?_⟩
    rw [hown.is, hst]

end Given

/-! ## A read that fails after the providers have run -/

/-- One provider, whose call succeeds. -/
def scanEnv : RunEnv :=
  RunEnv.plain "a" (.ok { id := "res_a", execution := { status := .completed }
                          verdict := some { value := .pass } })

/-- The steps up to the second `GetSubmission`. -/
def scanSteps : List Choice :=
  List.replicate 14 {}

/-- The second `GetSubmission` fails: the run returns and the submission
stays running. -/
theorem failed_read_leaves_running :
    ∃ s, (@runSys GoStd.plain (@Orchestrator.plain GoStd.plain) scanEnv scanWorld "sub_a").run
        WritesSucceed (scanSteps ++ [{ storeErr := some "store down" }])
        (scanWorld, { subID := "sub_a" }) = some s ∧
      runFinished s.2 = true ∧ s.1.status "sub_a" = some .running := by
  have hrun : ((@runSys GoStd.plain (@Orchestrator.plain GoStd.plain) scanEnv scanWorld "sub_a").run
      WritesSucceed (scanSteps ++ [{ storeErr := some "store down" }])
      (scanWorld, { subID := "sub_a" })).map (fun s => (runFinished s.2, s.1.status "sub_a")) =
      some (true, some .running) := by
    decide +kernel
  obtain ⟨s, hs, heq⟩ := Option.map_eq_some_iff.mp hrun
  simp only [Prod.mk.injEq] at heq
  exact ⟨s, hs, heq.1, heq.2⟩

/-- The same run with no failing call decides. -/
theorem process_settles_iff_scan :
    ∃ s, (@runSys GoStd.plain (@Orchestrator.plain GoStd.plain) scanEnv scanWorld "sub_a").run
        WritesSucceed (scanSteps ++ List.replicate 8 { order := ["res_a"] })
        (scanWorld, { subID := "sub_a" }) = some s ∧
      ∃ st, s.1.status "sub_a" = some st ∧ isTerminal st = true := by
  let _ := GoStd.plain
  have hrun : ((runSys Orchestrator.plain scanEnv scanWorld "sub_a").run
      (fun s ch => WritesSucceed s ch ∧ ¬ Strands s ch)
      (scanSteps ++ List.replicate 8 { order := ["res_a"] })
      (scanWorld, { subID := "sub_a" })).map (fun s => runFinished s.2) = some true := by
    decide +kernel
  obtain ⟨s, hs, hfin⟩ := Option.map_eq_some_iff.mp hrun
  have hwrites : (runSys Orchestrator.plain scanEnv scanWorld "sub_a").run WritesSucceed
      (scanSteps ++ List.replicate 8 { order := ["res_a"] }) (scanWorld, { subID := "sub_a" }) =
      some s := Sys.run_mono (fun _ _ h => h.1) hs
  exact ⟨s, hwrites, (process_settles_iff rfl hwrites hfin).mpr hs⟩

end Scintx.Orchestrator
