/-
Scintx.Orchestrator.History — several runs of `Process`, and which
results their decisions rest on.

A submission may be processed more than once: after a resume, or because
its job was claimed a second time, while the first run is still going.
Results are filed under their own id and LISTED by submission, so a run
reads whatever any run of that submission has stored. The history keeps
a log of all stored results, with the run that stored each, and every
run remembers how much of the log there was when it read. The decision
of a run rests on its own results exactly if that part of the log holds
no other result of the submission, and if all its own results could be
written as JSON.
-/
import Scintx.Orchestrator.Results
import Scintx.Policy.EvaluateTheorems

namespace Scintx.Orchestrator

open Scintx.Lib Scintx.Api Scintx.Store

/-! ## Histories -/

/-- A stored result and the position of the run that stored it. -/
structure Deposit where
  run : Nat
  result : ProviderResult

structure HistoryRun where
  run : Run
  env : RunEnv
  /-- What was stored before the run read the results. -/
  seen : List Deposit := []

structure History where
  world : World
  runs : List HistoryRun
  deposits : List Deposit

inductive HistoryAction where
  | start (subID : String) (env : RunEnv)
  | run (i : Nat) (ch : Choice)
  | resume (subID : String)
  /-- Whatever else happens in the gateway; it stores no results. -/
  | other (world : World)

/-- The log after a step of run `i`. -/
def History.record (s : History) (i : Nat) (hr : HistoryRun) (world : World) (r : Run) :
    Label → History
  | .silent => { s with world := world, runs := s.runs.set i { hr with run := r } }
  | .stores res =>
    { world := world, runs := s.runs.set i { hr with run := r }
      deposits := s.deposits ++ [{ run := i, result := res }] }
  | .reads =>
    { s with world := world, runs := s.runs.set i { hr with run := r, seen := s.deposits } }

section Given

variable [GoStd]

end Given

/-- A result that is about to be stored has an id no result had. -/
def Label.Fresh (deposits : List Deposit) : Label → Prop
  | .stores res => res.id ≠ "" ∧ ∀ d ∈ deposits, d.result.id ≠ res.id
  | .silent | .reads => True

instance (deposits : List Deposit) : DecidablePred (Label.Fresh deposits)
  | .stores _ => inferInstanceAs (Decidable (_ ∧ _))
  | .silent | .reads => .isTrue trivial

/-- No store call fails, the results are listed in one of the orders of
the map, and the id of a new result is fresh. -/
def HistoryAction.Regular (s : History) : HistoryAction → Prop
  | .run i ch =>
    ch.storeErr = none ∧ s.world.store.results.Enumerates ch.order ∧
      ∀ hr ∈ s.runs[i]?, (hr.run.label ch).Fresh s.deposits
  | _ => True

instance (s : History) : DecidablePred (HistoryAction.Regular s)
  | .run i _ => inferInstanceAs (Decidable (_ ∧ _ ∧ ∀ hr ∈ s.runs[i]?, _))
  | .start .. | .resume _ | .other _ => .isTrue trivial

/-! ## The invariant -/

/-- The store lists the deposit for submission `id`. -/
def Deposit.listed (id : String) (d : Deposit) : Bool :=
  d.result.encodable && d.result.submissionID = id

def depositIDs (ds : List Deposit) : List String := ds.map (·.result.id)

/-- The log is what the store holds. -/
structure Filed (results : Table String (Stored ProviderResult) (·.val.id))
    (deposits : List Deposit) : Prop where
  nodup : (depositIDs deposits).Nodup
  named : "" ∉ depositIDs deposits
  /-- What has no JSON is filed under the empty id. -/
  keys : ∀ k row, results.get? k = some row →
    (k = "" ∧ row.val.submissionID = "") ∨ k ∈ depositIDs deposits
  lists : ∀ id, id ≠ "" → ∀ order, results.Enumerates order →
    ((results.select order (·.val.submissionID = id)).map (·.val.id)).Perm
      (depositIDs (deposits.filter (Deposit.listed id)))

/-- The results stored by run `i`. -/
def depositsOf (i : Nat) (ds : List Deposit) : List ProviderResult :=
  (ds.filter (·.run = i)).map (·.result)

/-- What the log says of a run in a phase. -/
def Logged (o : Orchestrator) (i : Nat) (hr : HistoryRun) (deposits : List Deposit) :
    Phase → Prop
  | .fresh | .loaded _ => depositsOf i deposits = []
  | .collecting _ done =>
    depositsOf i deposits = done.map (outcome o hr.env hr.run.subID)
  | .weighing _ done results =>
    hr.seen <+: deposits ∧ depositsOf i hr.seen = done.map (outcome o hr.env hr.run.subID) ∧
      (hr.run.subID ≠ "" →
        (results.map (·.id)).Perm (depositIDs (hr.seen.filter (Deposit.listed hr.run.subID))))
  | .finished => True

structure HistoryInv (o : Orchestrator) (s : History) : Prop where
  filed : Filed s.world.store.results s.deposits
  bound : ∀ d ∈ s.deposits, d.run < s.runs.length
  runs : ∀ (i : Nat) hr, s.runs[i]? = some hr →
    hr.run.Owns ∧ ∃ ph, hr.run.pc.InPhase o hr.env hr.run.subID ph ∧ Logged o i hr s.deposits ph

/-! ## What the store lists -/

theorem depositIDs_append (ds : List Deposit) (d : Deposit) :
    depositIDs (ds ++ [d]) = depositIDs ds ++ [d.result.id] := by
  simp [depositIDs]

section Deposits

variable {results : Table String (Stored ProviderResult) (·.val.id)} {ds : List Deposit}
  {res : ProviderResult}

/-- A result with JSON is listed from now on. -/
theorem Filed.lists_encodable (h : Filed results ds) (hname : res.id ≠ "")
    (hfresh : res.id ∉ depositIDs ds) (henc : res.encodable = true) {i : Nat} {id : String}
    (hid : id ≠ "") {order : List String} (horder : (results.put (.of res)).Enumerates order) :
    (((results.put (.of res)).select order (·.val.submissionID = id)).map (·.val.id)).Perm
      (depositIDs ((ds ++ [Deposit.mk i res]).filter (Deposit.listed id))) := by
  have hval : (Stored.of res).val = res := cloneJSON_of_encodable henc
  have hnone : results.get? (Stored.of res).val.id = none := by
    rw [hval]
    cases hget : results.get? res.id with
    | none => rfl
    | some row =>
      rcases h.keys res.id row hget with ⟨hempty, -⟩ | hmem
      · exact absurd hempty hname
      · exact absurd hmem hfresh
  obtain ⟨order₀, h₀⟩ := Table.exists_enumerates results
  have hput := (Table.select_put_perm hnone h₀ horder (·.val.submissionID = id)).map (·.val.id)
  refine hput.trans ?_
  rw [List.map_append, List.filter_append, depositIDs, List.map_append]
  refine List.Perm.trans ?_ List.perm_append_comm
  refine List.Perm.append ?_ (h.lists id hid order₀ h₀)
  rw [hval]
  by_cases hsub : res.submissionID = id
  · simp [Deposit.listed, henc, hsub, cloneJSON_of_encodable henc]
  · simp [Deposit.listed, hsub]

/-- A result without JSON is not listed, and hides nothing. -/
theorem Filed.lists_hidden (h : Filed results ds) (henc : res.encodable = false) {i : Nat}
    {id : String} (hid : id ≠ "") {order : List String}
    (horder : (results.put (.of res)).Enumerates order) :
    (((results.put (.of res)).select order (·.val.submissionID = id)).map (·.val.id)).Perm
      (depositIDs ((ds ++ [Deposit.mk i res]).filter (Deposit.listed id))) := by
  have hval : (Stored.of res).val = ProviderResult.zero := cloneJSON_of_not_encodable henc
  obtain ⟨order₀, h₀⟩ := Table.exists_enumerates results
  have hv : decide ((Stored.of res).val.submissionID = id) = false := by
    rw [hval]
    simpa [ProviderResult.zero] using Ne.symm hid
  have hold (row : Stored ProviderResult)
      (hrow : results.get? (Stored.of res).val.id = some row) :
      decide (row.val.submissionID = id) = false := by
    rw [hval] at hrow
    rcases h.keys _ row hrow with ⟨-, hsub⟩ | hmem
    · simpa [hsub] using Ne.symm hid
    · exact absurd hmem h.named
  refine ((Table.select_put_hidden (p := fun row => row.val.submissionID = id) hv hold h₀
    horder).map (·.val.id)).trans ?_
  simpa [Deposit.listed, henc] using h.lists id hid order₀ h₀

/-- A store of a result with a fresh id. -/
theorem Filed.deposit (h : Filed results ds) (hname : res.id ≠ "")
    (hfresh : res.id ∉ depositIDs ds) (i : Nat) :
    Filed (results.put (.of res)) (ds ++ [Deposit.mk i res]) where
  nodup := by
    rw [depositIDs_append]
    exact List.concat_eq_append ▸ List.Nodup.concat hfresh h.nodup
  named := by
    rw [depositIDs_append, List.mem_append, List.mem_singleton]
    rintro (hmem | hempty)
    · exact h.named hmem
    · exact hname hempty.symm
  keys k row hrow := by
    rw [depositIDs_append, List.mem_append, List.mem_singleton]
    rw [Table.get?_put] at hrow
    split at hrow
    · rename_i hk
      cases hrow
      cases henc : res.encodable with
      | true => exact .inr (.inr (hk.trans (congrArg _ (cloneJSON_of_encodable henc))))
      | false =>
        have hval : (Stored.of res).val = ProviderResult.zero := cloneJSON_of_not_encodable henc
        rw [hval] at hk ⊢
        exact .inl ⟨hk, rfl⟩
    · exact (h.keys k row hrow).imp id .inl
  lists id hid order horder := by
    cases henc : res.encodable with
    | true => exact h.lists_encodable hname hfresh henc hid horder
    | false => exact h.lists_hidden henc hid horder

end Deposits

/-! ## What the log says of a run -/

section Log

variable {o : Orchestrator} {s : History} {i j : Nat} {hr hr' : HistoryRun} {ds ds' : List Deposit}
  {res : ProviderResult} {ph : Phase}

theorem depositsOf_append_self : depositsOf i (ds ++ [⟨i, res⟩]) = depositsOf i ds ++ [res] := by
  simp [depositsOf]

theorem depositsOf_append_ne (h : j ≠ i) :
    depositsOf i (ds ++ [⟨j, res⟩]) = depositsOf i ds := by
  simp [depositsOf, h]

/-- The log of other runs grows. -/
theorem Logged.grow (h : Logged o i hr ds ph) (hne : j ≠ i) :
    Logged o i hr (ds ++ [⟨j, res⟩]) ph := by
  cases ph with
  | fresh | loaded sub | collecting n done => exact (depositsOf_append_ne hne).trans h
  | weighing n done results =>
    obtain ⟨hseen, hrest⟩ := h
    exact ⟨hseen.trans (List.prefix_append _ _), hrest⟩
  | finished => trivial

/-- The run stores a result of its own. -/
theorem Logged.store {n : Nat} {done : List Nat} (h : Logged o i hr ds (.collecting n done))
    (k : Nat) : Logged o i hr (ds ++ [⟨i, outcome o hr.env hr.run.subID k⟩])
      (.collecting n (done ++ [k])) := by
  rw [Logged, depositsOf_append_self, List.map_append]
  exact congrArg (· ++ _) h

/-- `Logged` looks at the run's submission only. -/
theorem Logged.of_run {r : Run} (h : Logged o i hr ds ph) (hid : r.subID = hr.run.subID) :
    Logged o i { hr with run := r } ds ph := by
  cases ph with
  | finished => trivial
  | _ => simpa only [Logged, hid] using h

/-- One run moved; it may have stored one result. -/
theorem HistoryInv.moved (h : HistoryInv o s) (hi : s.runs[i]? = some hr) {world : World}
    (hext : ds' = s.deposits ∨ ∃ res, ds' = s.deposits ++ [⟨i, res⟩])
    (hfiled : Filed world.store.results ds') (howns : hr'.run.Owns)
    (hph : hr'.run.pc.InPhase o hr'.env hr'.run.subID ph) (hlog : Logged o i hr' ds' ph) :
    HistoryInv o { world := world, runs := s.runs.set i hr', deposits := ds' } where
  filed := hfiled
  bound d hd := by
    rw [List.length_set]
    rcases hext with rfl | ⟨res, rfl⟩
    · exact h.bound d hd
    · rcases List.mem_append.mp hd with hd | hd
      · exact h.bound d hd
      · rw [List.mem_singleton.mp hd]
        exact (List.getElem?_eq_some_iff.mp hi).1
  runs j hr₁ hj := by
    rcases getElem?_set_cases hj with ⟨rfl, rfl⟩ | ⟨hne, hold⟩
    · exact ⟨howns, ph, hph, hlog⟩
    · obtain ⟨howns₁, ph₁, hph₁, hlog₁⟩ := h.runs j hr₁ hold
      refine ⟨howns₁, ph₁, hph₁, ?_⟩
      rcases hext with rfl | ⟨res, rfl⟩
      · exact hlog₁
      · exact hlog₁.grow (Ne.symm hne)

/-- A run that has stored nothing yet has no deposits. -/
theorem HistoryInv.depositsOf_new (h : HistoryInv o s) :
    depositsOf s.runs.length s.deposits = [] := by
  rw [depositsOf, List.map_eq_nil_iff, List.filter_eq_nil_iff]
  intro d hd
  have := h.bound d hd
  simp only [decide_eq_true_eq]
  omega

theorem HistoryInv.started (h : HistoryInv o s) (subID : String) (env : RunEnv) :
    HistoryInv o { s with runs := s.runs ++ [{ run := { subID := subID }, env := env }] } where
  filed := h.filed
  bound d hd := by
    have := h.bound d hd
    rw [List.length_append]
    omega
  runs j hr hj := by
    rw [List.getElem?_append] at hj
    split at hj
    · exact h.runs j hr hj
    · rw [List.getElem?_singleton] at hj
      split at hj <;> cases hj
      rename_i hge hzero
      obtain rfl : j = s.runs.length := by omega
      exact ⟨Pc.owns_of_none rfl, .fresh, .checkCtx, h.depositsOf_new⟩

end Log

section Given

variable [GoStd] {o : Orchestrator} {s s' : History}

/-- A step of a run. -/
theorem HistoryInv.run (h : HistoryInv o s) {i : Nat} {hr : HistoryRun} {ch : Choice}
    (hi : s.runs[i]? = some hr) (hok : (HistoryAction.run i ch).Regular s) {world : World}
    {r : Run} (hstep : hr.run.step o hr.env ch s.world = some (world, r)) :
    HistoryInv o (s.record i hr world r (hr.run.label ch)) := by
  obtain ⟨hstore, horder, hfresh⟩ := hok
  obtain ⟨howns, ph, hph, hlog⟩ := h.runs i hr hi
  obtain ⟨hid, howns', -⟩ := Run.step_stage hstore howns hstep
  obtain ⟨ph', hph', hmove⟩ := Run.step_phase hstore howns hph hstep
  replace hfresh := hfresh hr hi
  generalize hr.run.label ch = label at hmove hfresh
  have silent (hres : world.store.results = s.world.store.results)
      (hlog' : Logged o i hr s.deposits ph') :
      HistoryInv o (s.record i hr world r .silent) := by
    refine h.moved hi (.inl rfl) ?_ howns' hph' (hlog'.of_run hid)
    rw [hres]
    exact h.filed
  cases hmove with
  | check hsame _ => exact silent hsame.results hlog
  | load _ => exact silent rfl hlog
  | idle _ hsame => exact silent hsame.results hlog
  | fan _ => exact silent rfl hlog
  | leave hsame => exact silent hsame.results trivial
  | store hlt hnew =>
    obtain ⟨hname, hids⟩ := hfresh
    refine h.moved hi (.inr ⟨_, rfl⟩) (h.filed.deposit hname ?_ i) howns' hph' ?_
    · rw [depositIDs, List.mem_map]
      rintro ⟨d, hd, heq⟩
      exact hids d hd heq
    · exact (hlog.store _).of_run hid
  | read hall =>
    refine h.moved hi (.inl rfl) h.filed howns' hph' ?_
    refine ⟨List.prefix_rfl, ?_, fun hne => ?_⟩
    · rw [hid]
      exact hlog
    · simp only [hid] at hne ⊢
      have hlists := h.filed.lists hr.run.subID hne ch.order horder
      rw [MemoryStore.getResultsForSubmission, List.map_map]
      simpa [Function.comp_def] using hlists

end Given

/-! ## A resumed submission -/

/-- The decision run `i` is about to store. -/
def History.deciding (s : History) (i : Nat) : Option (HistoryRun × Submission × PolicyDecision) :=
  s.runs[i]?.bind fun hr =>
    match hr.run.pc with
    | .putDecision sub d => some (hr, sub, d)
    | _ => none

end Scintx.Orchestrator
