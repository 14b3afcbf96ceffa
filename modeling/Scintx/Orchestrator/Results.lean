/-
Scintx.Orchestrator.Results — what a run of `Process` does with results.

The status of a submission is one concern of a run (`Lifecycle`), the
results of its providers are another. A run selects providers, each
goroutine stores ONE result, the ids of the stored results are written
on the submission, and the policy gets whatever the store then lists
for the submission. `Phase` is that story without the machine: which
goroutines have stored their result, and what was read afterwards.

The result of a goroutine is fixed by what the outside answers
(`outcome`); only the ORDER in which goroutines store is left to the
scheduler. `Run.step_phase` says that every step of the machine is a
step between phases, and `Run.label` names the two steps that touch the
results, a store and a read.
-/
import Scintx.Lib.Transition
import Scintx.Orchestrator.Lifecycle

namespace Scintx.Orchestrator

open Scintx.Lib Scintx.Api Scintx.Store

/-! ## Results of goroutines -/

/-- The result goroutine `i` comes to, from the cache or from its
provider. -/
def outcome (o : Orchestrator) (env : RunEnv) (subID : String) (i : Nat) : ProviderResult :=
  match env.cacheGet i with
  | some cached =>
    materializeCachedResult cached subID (env.resultRand i) (env.clock i) o.cacheTTL
  | none => assessed env subID i

theorem assessed_submissionID (env : RunEnv) (subID : String) (i : Nat) :
    (assessed env subID i).submissionID = subID := by
  unfold assessed
  split <;> rfl

theorem outcome_submissionID (o : Orchestrator) (env : RunEnv) (subID : String) (i : Nat) :
    (outcome o env subID i).submissionID = subID := by
  unfold outcome
  split
  · rfl
  · exact assessed_submissionID env subID i

/-- The goroutine has stored its result. -/
def GoPc.stored : GoPc → Bool
  | .record _ | .report _ | .done => true
  | _ => false

/-- The id of a stored result that is not in the run's list yet. -/
def GoPc.unrecorded : GoPc → List String
  | .record res => [res.id]
  | _ => []

/-- The goroutine asks its provider only on a miss, and holds no result
but its outcome. -/
def GoPc.Sound (o : Orchestrator) (env : RunEnv) (subID : String) (i : Nat) : GoPc → Prop
  | .start | .lookup | .done => True
  | .assess => env.cacheGet i = none
  | .cacheSet res | .put res | .record res | .report res => res = outcome o env subID i

/-- The goroutines in `done` have stored, in that order. -/
structure Collected (o : Orchestrator) (env : RunEnv) (subID : String)
    (gos : List (SelectedProvider × GoPc)) (ids : List String) (done : List Nat) : Prop where
  sound : ∀ (i : Nat) sel (pc : GoPc), gos[i]? = some (sel, pc) → pc.Sound o env subID i
  nodup : done.Nodup
  stored : ∀ i, i ∈ done ↔ ∃ sel, ∃ pc : GoPc, gos[i]? = some (sel, pc) ∧ pc.stored = true
  ids : (ids ++ gos.flatMap (·.2.unrecorded)).Perm
    (done.map fun i => (outcome o env subID i).id)

/-- All of `n` goroutines have stored, and `ids` are their results. -/
structure Joined (o : Orchestrator) (env : RunEnv) (subID : String) (n : Nat) (done : List Nat)
    (ids : List String) : Prop where
  all : done.Perm (List.range n)
  ids : ids.Perm (done.map fun i => (outcome o env subID i).id)

/-! ## Phases -/

inductive Phase where
  | fresh
  /-- The submission as it was first read. -/
  | loaded (sub : Submission)
  /-- Of `n` goroutines those in `done` have stored their result. -/
  | collecting (n : Nat) (done : List Nat)
  /-- The policy gets `results`. -/
  | weighing (n : Nat) (done : List Nat) (results : List ProviderResult)
  | finished

/-- No call that concerns results follows. -/
def Pc.late : Pc → Bool
  | .putDeferred _ _ | .complete _ _ _ | .putFailed _ _ => true
  | .interruptedGet _ | .interruptedPut _ _ | .returned _ => true
  | _ => false

section Phases

variable (o : Orchestrator) (env : RunEnv) (subID : String)

/-- Where the machine stands in a phase. -/
inductive Pc.InPhase : Phase → Pc → Prop
  | checkCtx : InPhase .fresh .checkCtx
  | getSubmission : InPhase .fresh .getSubmission
  | putRunning {sub : Submission} : InPhase (.loaded sub) (.putRunning sub)
  | hydrate {sub : Submission} : InPhase (.loaded sub) (.hydrate { sub with status := .running })
  | checkCtxEmpty {sub : Submission} :
      InPhase (.loaded sub) (.checkCtxEmpty { sub with status := .running })
  | fanOut {sub : Submission} {artifact : Artifact} {gos : List (SelectedProvider × GoPc)}
      {ids : List String} {done : List Nat} (h : Collected o env subID gos ids done) :
      InPhase (.collecting gos.length done) (.fanOut sub artifact gos ids)
  | checkCtxJoined {n : Nat} {done : List Nat} {ids : List String}
      (h : Joined o env subID n done ids) : InPhase (.collecting n done) (.checkCtxJoined ids)
  | getSubmissionAgain {n : Nat} {done : List Nat} {ids : List String}
      (h : Joined o env subID n done ids) : InPhase (.collecting n done) (.getSubmissionAgain ids)
  | putResultIDs {n : Nat} {done : List Nat} {sub : Submission}
      (h : Joined o env subID n done sub.resultIDs) :
      InPhase (.collecting n done) (.putResultIDs sub)
  | getResults {n : Nat} {done : List Nat} {sub : Submission}
      (h : Joined o env subID n done sub.resultIDs) : InPhase (.collecting n done) (.getResults sub)
  | putMerged {n : Nat} {done : List Nat} {sub : Submission} {results : List ProviderResult}
      {merged : MergedResult} (h : Joined o env subID n done sub.resultIDs) :
      InPhase (.weighing n done results) (.putMerged sub results merged)
  | evaluate {n : Nat} {done : List Nat} {sub : Submission} {results : List ProviderResult}
      {merged : Option MergedResult} (h : Joined o env subID n done sub.resultIDs) :
      InPhase (.weighing n done results) (.evaluate sub results merged)
  | putDecision {n : Nat} {done : List Nat} {sub : Submission} {results : List ProviderResult}
      {merged : Option MergedResult} {decision : PolicyDecision}
      (h : Joined o env subID n done sub.resultIDs)
      (heval : o.evaluate env.eval sub results merged = .ok decision) :
      InPhase (.weighing n done results) (.putDecision sub decision)
  | finished {pc : Pc} (h : pc.late = true) : InPhase .finished pc

end Phases

/-- What a step does with results. -/
inductive Label where
  | silent
  | stores (res : ProviderResult)
  | reads

def goLabel : Option (SelectedProvider × GoPc) → Label
  | some (_, .put res) => .stores res
  | _ => .silent

/-- The label of the next step of a run. -/
def Run.label (ch : Choice) (r : Run) : Label :=
  match r.outbox, r.pc with
  | [], .fanOut _ _ gos _ => goLabel gos[ch.goroutine]?
  | [], .getResults _ => .reads
  | _, _ => .silent

/-- The stored results and artifacts are the same. -/
structure World.SameResults (w w' : World) : Prop where
  results : w'.store.results = w.store.results
  artifacts : w'.store.artifacts = w.store.artifacts

theorem World.SameResults.refl (w : World) : w.SameResults w := ⟨rfl, rfl⟩

theorem World.emit_sameResults (w : World) (storeErr : Option String) (randHex : String)
    (now : Time) (e : Emission) : w.SameResults (w.emit storeErr randHex now e) := by
  simp only [World.emit]
  split <;> exact ⟨rfl, rfl⟩

section Given

variable [GoStd] (o : Orchestrator) (env : RunEnv) (ch : Choice) (subID : String)

/-- Every step of a run, between phases. -/
inductive Phase.Step : Label → World → Phase → World → Phase → Prop
  | check {w w' : World} (hsame : w.SameResults w')
      (hsubs : w'.store.submissions = w.store.submissions) : Step .silent w .fresh w' .fresh
  | load {w : World} {sub : Submission} (hget : w.store.getSubmission subID = some sub) :
      Step .silent w .fresh w (.loaded sub)
  | idle {w w' : World} {ph : Phase} (hph : ph ≠ .fresh) (hsame : w.SameResults w') :
      Step .silent w ph w' ph
  | fan {w : World} {sub : Submission} {artifact : Artifact}
      (hyd : hydrateLocalBlob w.store ch.storeErr (canonicalArtifact sub.artifact) = .ok artifact) :
      Step .silent w (.loaded sub) w (.collecting (o.selected sub artifact).length [])
  | store {w : World} {n i : Nat} {done : List Nat} (hi : i < n) (hnew : i ∉ done) :
      Step (.stores (outcome o env subID i)) w (.collecting n done)
        { w with store := w.store.putResult (outcome o env subID i) }
        (.collecting n (done ++ [i]))
  | read {w : World} {n : Nat} {done : List Nat} (hall : done.Perm (List.range n)) :
      Step .reads w (.collecting n done) w
        (.weighing n done (w.store.getResultsForSubmission ch.order subID))
  | leave {w w' : World} {ph : Phase} (hsame : w.SameResults w') : Step .silent w ph w' .finished

variable {o env ch subID}

/-! ## Goroutines -/

/-- A goroutine stores its outcome, loses it when the store does not take
it, or leaves the results alone. -/
theorem goStep_results {artifact : Artifact} {i : Nat} {sel : SelectedProvider} {w w' : World}
    {ids ids' : List String} {pc pc' : GoPc} (hs : pc.Sound o env subID i)
    (h : goStep o env ch subID artifact i sel w ids pc = some (w', ids', pc')) :
    (pc = .put (outcome o env subID i) ∧ ch.storeErr = none ∧
      pc' = .record (outcome o env subID i) ∧ ids' = ids ∧
      w' = { w with store := w.store.putResult (outcome o env subID i) }) ∨
    (pc = .put (outcome o env subID i) ∧ ch.storeErr ≠ none ∧ pc' = .done ∧ w' = w) ∨
    ((∀ res, pc ≠ .put res) ∧ w.SameResults w' ∧ pc'.Sound o env subID i ∧
      pc'.stored = pc.stored ∧ ids' ++ pc'.unrecorded = ids ++ pc.unrecorded) := by
  cases goStep_move h with
  | start | reported =>
    exact .inr (.inr ⟨by simp, World.emit_sameResults .., trivial, rfl, rfl⟩)
  | hit hget =>
    exact .inr (.inr ⟨by simp, .refl w, by simp [GoPc.Sound, outcome, hget], rfl, rfl⟩)
  | miss hget => exact .inr (.inr ⟨by simp, .refl w, hget, rfl, rfl⟩)
  | cacheable | uncacheable =>
    have hres : assessed env subID i = outcome o env subID i := by
      simp only [outcome, show env.cacheGet i = none from hs]
    exact .inr (.inr ⟨by simp, .refl w, hres, rfl, rfl⟩)
  | cached | notCached => exact .inr (.inr ⟨by simp, ⟨rfl, rfl⟩, hs, rfl, rfl⟩)
  | stored res hok =>
    obtain rfl : res = outcome o env subID i := hs
    exact .inl ⟨rfl, hok, rfl, rfl, rfl⟩
  | notStored res hfail =>
    obtain rfl : res = outcome o env subID i := hs
    exact .inr (.inl ⟨rfl, hfail, rfl, rfl⟩)
  | recorded => exact .inr (.inr ⟨by simp, .refl w, hs, rfl, by simp [GoPc.unrecorded]⟩)

/-- When no store call fails, a goroutine stores its outcome or leaves the
results alone. -/
theorem goStep_phase (hstore : ch.storeErr = none) {artifact : Artifact} {i : Nat}
    {sel : SelectedProvider} {w w' : World} {ids ids' : List String} {pc pc' : GoPc}
    (hs : pc.Sound o env subID i)
    (h : goStep o env ch subID artifact i sel w ids pc = some (w', ids', pc')) :
    (pc = .put (outcome o env subID i) ∧ pc' = .record (outcome o env subID i) ∧ ids' = ids ∧
      w' = { w with store := w.store.putResult (outcome o env subID i) }) ∨
    ((∀ res, pc ≠ .put res) ∧ w.SameResults w' ∧ pc'.Sound o env subID i ∧
      pc'.stored = pc.stored ∧ ids' ++ pc'.unrecorded = ids ++ pc.unrecorded) := by
  rcases goStep_results hs h with ⟨hpc, -, hmove⟩ | ⟨-, hfail, -⟩ | hquiet
  · exact .inl ⟨hpc, hmove⟩
  · exact absurd hstore hfail
  · exact .inr hquiet

section Labels

omit [GoStd]

variable {sub : Submission} {artifact : Artifact} {gos : List (SelectedProvider × GoPc)}
  {ids : List String}

theorem Run.label_fanOut_stores {sel : SelectedProvider} {res : ProviderResult}
    (h : gos[ch.goroutine]? = some (sel, .put res)) :
    Run.label ch { subID := subID, pc := .fanOut sub artifact gos ids } = .stores res := by
  simp only [Run.label, h, goLabel]

theorem Run.label_fanOut_silent (h : ∀ sel res, gos[ch.goroutine]? ≠ some (sel, .put res)) :
    Run.label ch { subID := subID, pc := .fanOut sub artifact gos ids } = .silent := by
  simp only [Run.label, goLabel.eq_2 _ h]

theorem Run.label_late {pc : Pc} (h : pc.late = true) :
    Run.label ch { subID := subID, pc := pc } = .silent := by
  cases pc <;> first | rfl | cases h

end Labels

section Collect

omit [GoStd]

variable {gos : List (SelectedProvider × GoPc)} {ids ids' : List String} {done : List Nat} {i : Nat}
  {sel : SelectedProvider} {pc pc' : GoPc}

/-- The positions that have stored after one goroutine moved. -/
theorem Collected.stored_set (h : Collected o env subID gos ids done)
    (hi : gos[i]? = some (sel, pc)) (j : Nat) :
    (∃ sel', ∃ q : GoPc, (gos.set i (sel, pc'))[j]? = some (sel', q) ∧ q.stored = true) ↔
      if j = i then pc'.stored = true else j ∈ done := by
  have hlt := (List.getElem?_eq_some_iff.mp hi).1
  by_cases hj : j = i
  · subst hj
    simp [List.getElem?_set_self hlt]
  · rw [if_neg hj, List.getElem?_set_ne (Ne.symm hj), h.stored]

theorem GoPc.sound_set
    (h : ∀ (i : Nat) sel (pc : GoPc), gos[i]? = some (sel, pc) → pc.Sound o env subID i)
    (hs : pc'.Sound o env subID i) (j : Nat) (sel' : SelectedProvider) (q : GoPc)
    (hj : (gos.set i (sel, pc'))[j]? = some (sel', q)) : q.Sound o env subID j := by
  rcases getElem?_set_cases hj with ⟨rfl, heq⟩ | ⟨-, hold⟩
  · cases heq
    exact hs
  · exact h j sel' q hold

theorem GoPc.sound_start (sels : List SelectedProvider) (j : Nat) (sel' : SelectedProvider)
    (q : GoPc) (hj : (sels.map fun sel => (sel, GoPc.start))[j]? = some (sel', q)) :
    q.Sound o env subID j := by
  rw [List.getElem?_map, Option.map_eq_some_iff] at hj
  obtain ⟨sel, -, heq⟩ := hj
  cases heq
  trivial

theorem Collected.start (sels : List SelectedProvider) :
    Collected o env subID (sels.map fun sel => (sel, .start)) [] [] where
  sound := GoPc.sound_start sels
  nodup := List.nodup_nil
  stored j := by
    simp only [List.not_mem_nil, false_iff, List.getElem?_map, Option.map_eq_some_iff]
    rintro ⟨sel', q, ⟨sel, -, heq⟩, hq⟩
    cases heq
    cases hq
  ids := by
    have hnil : (sels.map fun sel => (sel, GoPc.start)).flatMap (·.2.unrecorded) = [] := by
      simp [GoPc.unrecorded]
    rw [hnil]
    rfl

/-- A goroutine moves without storing. -/
theorem Collected.silent (h : Collected o env subID gos ids done) (hi : gos[i]? = some (sel, pc))
    (hs : pc'.Sound o env subID i) (hstored : pc'.stored = pc.stored)
    (hids : ids' ++ pc'.unrecorded = ids ++ pc.unrecorded) :
    Collected o env subID (gos.set i (sel, pc')) ids' done where
  sound := GoPc.sound_set h.sound hs
  nodup := h.nodup
  stored j := by
    rw [h.stored_set hi]
    by_cases hj : j = i
    · subst hj
      simp [h.stored, hi, hstored]
    · rw [if_neg hj]
  ids := by
    refine List.Perm.trans (List.perm_iff_count.mpr fun v => ?_) h.ids
    have hset := count_flatMap_set (fun g : SelectedProvider × GoPc => g.2.unrecorded) v hi
      (sel, pc')
    have hcount := congrArg (List.count v) hids
    simp only [List.count_append] at hset hcount ⊢
    omega

/-- A goroutine stores its outcome. -/
theorem Collected.store (h : Collected o env subID gos ids done)
    (hi : gos[i]? = some (sel, .put (outcome o env subID i))) :
    i ∉ done ∧ Collected o env subID (gos.set i (sel, .record (outcome o env subID i))) ids
      (done ++ [i]) := by
  have hnew : i ∉ done := by
    rw [h.stored, hi]
    rintro ⟨sel', q, heq, hq⟩
    cases heq
    cases hq
  refine ⟨hnew, GoPc.sound_set h.sound rfl,
    List.concat_eq_append ▸ List.Nodup.concat hnew h.nodup, fun j => ?_, ?_⟩
  · rw [h.stored_set hi, List.mem_append, List.mem_singleton]
    by_cases hj : j = i <;> simp [hj, GoPc.stored]
  · rw [List.map_append]
    refine List.Perm.trans (List.perm_iff_count.mpr fun v => ?_) (h.ids.append_right _)
    have hset := count_flatMap_set (fun g : SelectedProvider × GoPc => g.2.unrecorded) v hi
      (sel, .record (outcome o env subID i))
    simp only [GoPc.unrecorded, List.count_append, List.count_nil, List.map_cons,
      List.map_nil] at hset ⊢
    omega

/-- When every goroutine is done, all have stored and all ids are
listed. -/
theorem Collected.joined (h : Collected o env subID gos ids done)
    (hdone : ∀ g ∈ gos, g.2 = .done) : Joined o env subID gos.length done ids where
  all := by
    refine (List.perm_ext_iff_of_nodup h.nodup List.nodup_range).mpr fun j => ?_
    rw [h.stored, List.mem_range]
    constructor
    · rintro ⟨sel', q, hj, -⟩
      exact (List.getElem?_eq_some_iff.mp hj).1
    · intro hj
      refine ⟨gos[j].1, gos[j].2, List.getElem?_eq_getElem hj, ?_⟩
      rw [hdone gos[j] (List.getElem_mem hj)]
      rfl
  ids := by
    have hnil : gos.flatMap (·.2.unrecorded) = [] := by
      refine List.flatMap_eq_nil_iff.mpr fun g hg => ?_
      rw [hdone g hg]
      rfl
    have := h.ids
    rwa [hnil, List.append_nil] at this

end Collect

/-! ## Runs -/

theorem Pc.late_step {w w' : World} {pc pc' : Pc} {out : List Emission} (hlate : pc.late = true)
    (h : pcStep o env ch subID w pc = some (w', pc', out)) :
    pc'.late = true ∧ w.SameResults w' := by
  rcases pcStep_cases h with hmove | ⟨err, rfl, hloss⟩
  · cases hmove with
    | deferred | completed | failed | interruptedMissing | interruptedLate | interruptedLoad
    | interrupted => exact ⟨rfl, rfl, rfl⟩
    | _ => cases hlate
  · cases hloss with
    | merge => cases hlate
    | _ => exact ⟨rfl, .refl _⟩

theorem pcStep_phase (hstore : ch.storeErr = none) {ph : Phase} {w w' : World} {pc pc' : Pc}
    {out : List Emission} (howns : pc.Owns subID) (hph : pc.InPhase o env subID ph)
    (h : pcStep o env ch subID w pc = some (w', pc', out)) :
    ∃ ph', pc'.InPhase o env subID ph' ∧
      Phase.Step o env ch subID (Run.label ch { subID := subID, pc := pc }) w ph w' ph' := by
  cases hph with
  | checkCtx =>
    cases pcStep_move hstore h with
    | cancelled => exact ⟨.finished, .finished rfl, .leave (.refl w)⟩
    | start => exact ⟨.fresh, .getSubmission, .check (.refl w) rfl⟩
  | getSubmission =>
    cases pcStep_move hstore h with
    | notFound => exact ⟨.finished, .finished rfl, .leave (.refl w)⟩
    | load hget => exact ⟨_, .putRunning, .load hget⟩
  | putRunning =>
    cases pcStep_move hstore h with
    | mark => exact ⟨_, .hydrate, .idle (by simp) ⟨rfl, rfl⟩⟩
  | hydrate =>
    cases pcStep_move hstore h with
    | unreadable => exact ⟨.finished, .finished rfl, .leave (.refl w)⟩
    | ineligible => exact ⟨_, .checkCtxEmpty, .idle (by simp) (.refl w)⟩
    | select hyd =>
      refine ⟨_, .fanOut (.start _), ?_⟩
      rw [List.length_map]
      exact .fan hyd
  | checkCtxEmpty =>
    cases pcStep_move hstore h <;> exact ⟨.finished, .finished rfl, .leave (.refl w)⟩
  | fanOut hc =>
    rename_i sub artifact gos ids done
    obtain rfl := howns sub rfl
    cases pcStep_move hstore h with
    | join hdone =>
      refine ⟨_, .checkCtxJoined (hc.joined hdone), ?_⟩
      rw [Run.label_fanOut_silent (fun sel res hg => by cases hdone _ (List.mem_of_getElem? hg))]
      exact .idle (by simp) (.refl w)
    | goroutine hgo hstep =>
      rcases goStep_phase hstore (hc.sound _ _ _ hgo) hstep with
        ⟨rfl, rfl, rfl, rfl⟩ | ⟨hput, hsame, hs, hst, hids⟩
      · obtain ⟨hnew, hc'⟩ := hc.store hgo
        refine ⟨_, .fanOut hc', ?_⟩
        rw [Run.label_fanOut_stores hgo, List.length_set]
        exact .store (List.getElem?_eq_some_iff.mp hgo).1 hnew
      · refine ⟨_, .fanOut (hc.silent hgo hs hst hids), ?_⟩
        rw [List.length_set, Run.label_fanOut_silent (fun sel' res hg => by
          rw [hgo] at hg
          cases hg
          exact hput res rfl)]
        exact .idle (by simp) hsame
  | checkCtxJoined hj =>
    cases pcStep_move hstore h with
    | cancelledJoined => exact ⟨.finished, .finished rfl, .leave (.refl w)⟩
    | joined => exact ⟨_, .getSubmissionAgain hj, .idle (by simp) (.refl w)⟩
  | getSubmissionAgain hj =>
    cases pcStep_move hstore h with
    | disappeared => exact ⟨.finished, .finished rfl, .leave (.refl w)⟩
    | reload => exact ⟨_, .putResultIDs hj, .idle (by simp) (.refl w)⟩
  | putResultIDs hj =>
    cases pcStep_move hstore h with
    | collect => exact ⟨_, .getResults hj, .idle (by simp) ⟨rfl, rfl⟩⟩
    | findings => exact ⟨.finished, .finished rfl, .leave ⟨rfl, rfl⟩⟩
  | getResults hj =>
    rename_i sub
    obtain rfl := howns sub rfl
    cases pcStep_move hstore h with
    | weigh hresults =>
      obtain rfl := hresults
      exact ⟨_, .evaluate hj, .read hj.all⟩
    | merge hresults =>
      obtain rfl := hresults
      exact ⟨_, .putMerged hj, .read hj.all⟩
  | putMerged hj =>
    cases pcStep_move hstore h with
    | mergeStored => exact ⟨_, .evaluate hj, .idle (by simp) ⟨rfl, rfl⟩⟩
  | evaluate hj =>
    cases pcStep_move hstore h with
    | noRuling => exact ⟨.finished, .finished rfl, .leave (.refl w)⟩
    | rule heval => exact ⟨_, .putDecision hj heval, .idle (by simp) (.refl w)⟩
  | putDecision hj heval =>
    cases pcStep_move hstore h <;> exact ⟨.finished, .finished rfl, .leave ⟨rfl, rfl⟩⟩
  | finished hlate =>
    obtain ⟨hlate', hsame⟩ := Pc.late_step hlate h
    refine ⟨.finished, .finished hlate', ?_⟩
    rw [Run.label_late hlate]
    exact .leave hsame

/-- **The machine refines the phases.** -/
theorem Run.step_phase (hstore : ch.storeErr = none) {ph : Phase} {w w' : World} {r r' : Run}
    (howns : r.Owns) (hph : r.pc.InPhase o env r.subID ph)
    (h : r.step o env ch w = some (w', r')) :
    ∃ ph', r'.pc.InPhase o env r'.subID ph' ∧
      Phase.Step o env ch r.subID (r.label ch) w ph w' ph' := by
  obtain ⟨subID, pc, outbox⟩ := r
  cases Run.step_move h with
  | emit hout =>
    cases hout
    refine ⟨ph, hph, ?_⟩
    have hsame := World.emit_sameResults w ch.storeErr ch.randHex ch.now
    by_cases hfresh : ph = .fresh
    · subst hfresh
      exact .check (hsame _) (World.emit_submissions ..)
    · exact .idle hfresh (hsame _)
  | call hout hcall =>
    cases hout
    exact pcStep_phase hstore howns hph hcall

end Given

end Scintx.Orchestrator
