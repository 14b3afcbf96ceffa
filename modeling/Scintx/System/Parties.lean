/-
Scintx.System.Parties — what the threads of a gateway are to the
submissions in its store.

In either mode the threads are handlers and runs of `Process`, on one
store, and what they do to submissions is `HandlerStep` and
`Stage.Step`. A `Party` is a thread with everything else forgotten. Who
may write what is a matter of COUNTING (`Lib.Tenancy`): a submission
that is accepted or running has one holder, the handler that stored or
claimed it, the run that has not stored its final status, or a job. All
others have none.

`Kept` is what one step of one party means under this discipline, for
the counting and for the records; `runStep_kept` and `handlerStep_kept`
prove it of every step, over any dispatcher. Where a job comes from and
who takes it is for the mode: a handler that commits PASSES its
submission on, and that is all that is said here.
-/
import Scintx.Lib.Tenancy
import Scintx.Server.HandlerStages

namespace Scintx.System

open Scintx.Lib Scintx.Api Scintx.Store Scintx.Orchestrator Scintx.Workers Scintx.Server

/-! ## Statuses -/

/-- A submission in this status is still to be worked on. -/
def isLive : Option SubmissionStatus → Bool
  | some .accepted | some .running => true
  | _ => false

theorem isLive_cases {st : Option SubmissionStatus} (h : isLive st = true) :
    st = some .accepted ∨ st = some .running := by
  unfold isLive at h
  split at h
  · exact .inl rfl
  · exact .inr rfl
  · cases h

theorem isLive_terminal {st : SubmissionStatus} (h : isTerminal st = true) :
    isLive (some st) = false := by
  cases st <;> first | rfl | cases h

/-- The changes of a stored status, and the appearance and the removal of
a submission. -/
inductive StatusChange : Option SubmissionStatus → Option SubmissionStatus → Prop
  | same (st : Option SubmissionStatus) : StatusChange st st
  | created : StatusChange none (some .accepted)
  | abandoned : StatusChange (some .accepted) none
  | started : StatusChange (some .accepted) (some .running)
  | rejected : StatusChange (some .accepted) (some .failed)
  | completed : StatusChange (some .running) (some .completed)
  | failed : StatusChange (some .running) (some .failed)
  | deferred : StatusChange (some .running) (some .deferred)
  | resumed : StatusChange (some .deferred) (some .running)

theorem StatusChange.final_kept {st st' : Option SubmissionStatus} (h : StatusChange st st')
    (hst : st = some .completed ∨ st = some .failed) : st' = st := by
  cases h with
  | same => rfl
  | _ => rcases hst with hst | hst <;> cases hst

/-! ## Parties -/

inductive Party where
  | handler (st : HStage)
  | run (id : String) (st : Stage)
  | bystander
  deriving DecidableEq

/-- The submission a party answers for. -/
def Party.holder : Party → Option String
  | .handler st => st.holder
  | .run id st => if st = .done then none else some id
  | .bystander => none

/-- The status a party relies on. -/
def Party.expects : Party → Option (String × Option SubmissionStatus)
  | .handler st => st.expects
  | .run id st => st.expects.map fun s => (id, some s)
  | .bystander => none

/-- The id a party has drawn and not stored yet. -/
def Party.draws : Party → Option String
  | .handler st => st.draws
  | _ => none

/-- The copies a party holds are of the status it relies on. -/
def Party.Sound : Party → Prop
  | .handler st => ∀ id c, st = .adjudicating id c → c = .completed
  | .run _ st => ∀ c, st = .working (some c) → c = .running
  | .bystander => True

/-- A handler that committed has passed its submission on. -/
def Party.passes (id : String) : Party → Party → Bool
  | .handler (.admitting k), .handler .idle | .handler (.resuming k), .handler .idle => k = id
  | _, _ => false

theorem Party.passes_self (id : String) (t : Party) : t.passes id t = false := by
  match t with
  | .handler st => cases st <;> rfl
  | .run _ _ | .bystander => rfl

/-- Live submissions are held by one party or by a job. -/
def tenancy : Tenancy String (Option SubmissionStatus) Party where
  live := isLive
  holds id t := (decide (t.holder = some id)).toNat
  expects := Party.expects
  free st := st = none || st = some .deferred
  expects_not_free := by
    intro t id v h
    match t with
    | .handler st =>
      simp only [Party.expects, HStage.expects] at h
      split at h <;> cases h <;> rfl
    | .run _ st =>
      simp only [Party.expects, Stage.expects, Option.map_eq_some_iff] at h
      obtain ⟨st, hst, heq⟩ := h
      split at hst <;> cases hst
      cases heq
      rfl
    | .bystander => cases h
  holds_of_expects := by
    intro t id v h hlive
    match t with
    | .handler st =>
      simp only [Party.expects, HStage.expects] at h
      simp only [Party.holder, HStage.holder]
      split at h <;> cases h <;> simp_all [isLive]
    | .run _ st =>
      simp only [Party.expects, Stage.expects, Option.map_eq_some_iff] at h
      obtain ⟨st, hst, heq⟩ := h
      split at hst <;> cases hst
      cases heq
      simp_all [Party.holder]
    | .bystander => cases h

/-! ## What a step means -/

/-- What a step of a party means for the submissions. It writes at most
the record of `k`. -/
structure Kept (k : String) (w : World) (t : Party) (w' : World) (t' : Party) : Prop where
  others : ∀ y, y ≠ k → w'.record y = w.record y
  writes : w'.record k ≠ w.record k → t.holder = some k ∨ tenancy.free (w.status k) = true ∨
    ∃ c, t = .handler (.adjudicating k c)
  may : w'.status k ≠ w.status k → 0 < tenancy.holds k t ∨ tenancy.free (w.status k) = true
  count : ∀ y, tenancy.holds y t' + (t.passes y t').toNat + (isLive (w.status y)).toNat =
    tenancy.holds y t + (isLive (w'.status y)).toNat
  expected : ∀ y v, t'.expects = some (y, v) → w'.status y = v
  sound : t'.Sound
  drawn : ∀ y, (decide (t'.draws = some y)).toNat + (w'.status y).isSome.toNat ≤
    (decide (t.draws = some y)).toNat + (w.status y).isSome.toNat
  change : StatusChange (w.status k) (w'.status k)
  claims : w.status k = some .deferred → w'.status k = some .running → t = .handler (.claiming k)

section Moves

variable {w w' : World} {t t' : Party} {k : String}

theorem Kept.status_others (h : Kept k w t w' t') {y : String} (hy : y ≠ k) :
    w'.status y = w.status y :=
  World.status_of_record (h.others y hy)

/-- A step that writes no record: at most it passes a submission on. -/
theorem Kept.still (k : String) (hsame : w'.store.submissions = w.store.submissions)
    (hcount : ∀ y, tenancy.holds y t' + (t.passes y t').toNat = tenancy.holds y t)
    (hexp : ∀ y v, t'.expects = some (y, v) → w.status y = v)
    (hdraws : ∀ y, t'.draws = some y → t.draws = some y) (hsound : t'.Sound) :
    Kept k w t w' t' := by
  have hval (y : String) : w'.status y = w.status y := World.status_of_submissions hsame y
  have hrec (y : String) : w'.record y = w.record y := by rw [World.record, World.record, hsame]
  refine ⟨fun y _ => hrec y, fun h => absurd (hrec k) h, fun h => absurd (hval k) h,
    fun y => by rw [hval, hcount], fun y v he => by rw [hval, hexp y v he], hsound, fun y => ?_, ?_,
    fun hd hr => ?_⟩
  · have := hdraws y
    rw [hval]
    by_cases h : t'.draws = some y <;> simp_all
  · rw [hval]
    exact .same _
  · rw [hval, hd] at hr
    cases hr

/-- A step that writes one record, of status `v` over `u`. -/
theorem Kept.write {u v : Option SubmissionStatus} (hu : w.status k = u)
    (hothers : ∀ y, y ≠ k → w'.record y = w.record y) (hv : w'.status k = v)
    (hmay : t.holder = some k ∨ tenancy.free u = true)
    (hholder : ∀ y, t.holder = some y ∨ t'.holder = some y → y = k)
    (hpass : ∀ y, t.passes y t' = false)
    (hcount : tenancy.holds k t' + (isLive u).toNat = tenancy.holds k t + (isLive v).toNat)
    (hexp : ∀ y z, t'.expects = some (y, z) → y = k ∧ v = z) (hdraws : t'.draws = none)
    (hdrawn : v.isSome.toNat ≤ (decide (t.draws = some k)).toNat + u.isSome.toNat)
    (hsound : t'.Sound) (hchange : StatusChange u v)
    (hclaims : u = some .deferred → v = some .running → t = .handler (.claiming k)) :
    Kept k w t w' t' := by
  subst hu hv
  have hstatus (y : String) (hy : y ≠ k) : w'.status y = w.status y :=
    World.status_of_record (hothers y hy)
  have hapart (y : String) (hy : y ≠ k) : t.holder ≠ some y ∧ t'.holder ≠ some y :=
    ⟨fun h => hy (hholder y (.inl h)), fun h => hy (hholder y (.inr h))⟩
  refine ⟨hothers, fun _ => hmay.imp_right .inl, fun _ => ?_, fun y => ?_, fun y z he => ?_, hsound,
    fun y => ?_, hchange, hclaims⟩
  · exact hmay.imp_left fun h => by simp [tenancy, h]
  · rw [hpass, Bool.toNat_false, Nat.add_zero]
    by_cases hy : y = k
    · rw [hy, hcount]
    · simp [tenancy, hapart y hy, hstatus y hy]
  · obtain ⟨rfl, rfl⟩ := hexp y z he
    rfl
  · rw [hdraws]
    by_cases hy : y = k
    · subst hy
      simpa using hdrawn
    · simp [hstatus y hy]

end Moves

/-! ## Steps of runs -/

/-- What a step of its run means for the status of a submission. -/
structure RunKept (stored : Option SubmissionStatus) (st : Stage)
    (stored' : Option SubmissionStatus) (st' : Stage) : Prop where
  count : (decide (st' ≠ .done)).toNat + (isLive stored).toNat =
    (decide (st ≠ .done)).toNat + (isLive stored').toNat
  expected : ∀ v, st'.expects = some v → stored' = some v
  copy : ∀ c, st' = .working (some c) → c = .running
  stays : stored'.isSome = stored.isSome
  change : StatusChange stored stored'
  unclaimed : stored = some .deferred → stored' = some .deferred

/-- A run that does not write and still holds its submission. -/
theorem RunKept.silent {stored : Option SubmissionStatus} {st st' : Stage}
    (hdone : st' = .done ↔ st = .done) (hexp : ∀ v, st'.expects = some v → stored = some v)
    (hcopy : ∀ c, st' = .working (some c) → c = .running) : RunKept stored st stored st' where
  count := by simp only [ne_eq, hdone]
  expected := hexp
  copy := hcopy
  stays := rfl
  change := .same stored
  unclaimed h := h

/-- A run that writes the status with which it ends. -/
theorem RunKept.final {stored : Option SubmissionStatus} {st : Stage} {f : SubmissionStatus}
    (hst : st ≠ .done) (hlive : isLive stored = true) (hf : isTerminal f = true)
    (hchange : StatusChange stored (some f)) : RunKept stored st (some f) .done where
  count := by simp [hst, hlive, isLive_terminal hf]
  expected v h := by cases h
  copy c h := by cases h
  stays := by rcases isLive_cases hlive with rfl | rfl <;> rfl
  change := hchange
  unclaimed h := by rw [h] at hlive; cases hlive

theorem stageStep_kept {wrote : Bool} {stored stored' : Option SubmissionStatus} {st st' : Stage}
    (h : Stage.Step wrote stored st stored' st') (hlive : st ≠ .done → isLive stored = true)
    (hexp : ∀ v, st.expects = some v → stored = some v)
    (hcopy : ∀ c, st = .working (some c) → c = .running) : RunKept stored st stored' st' := by
  cases h with
  | idle => exact .silent Iff.rfl hexp hcopy
  | interruptFresh | interrupt => exact .silent (by simp) (by simp [Stage.expects]) (by simp)
  | missing =>
    -- a run that still had work to do would find its submission
    obtain rfl : st = .done := by
      by_contra hne
      cases hlive hne
    exact .silent Iff.rfl hexp hcopy
  | read => exact .silent (by simp) (by simp [Stage.expects]) (by simp)
  | start =>
    have hl := hlive (by simp)
    refine ⟨by rw [hl]; rfl, by simp [Stage.expects], by simp, ?_, ?_, ?_⟩
    all_goals rcases isLive_cases hl with rfl | rfl
    · rfl
    · rfl
    · exact .started
    · exact .same _
    · simp
    · simp
  | drop copy => exact .silent (by simp) (fun v hv => hexp v hv) (by simp)
  | reread s =>
    have hs := hexp .running rfl
    exact .silent (by simp) (fun v hv => hexp v hv) (by simpa using hs)
  | save _ s =>
    obtain rfl := hcopy s rfl
    obtain rfl := hexp .running rfl
    exact .silent Iff.rfl hexp hcopy
  | settle _ s f hf =>
    obtain rfl := hexp .running rfl
    refine .final (by simp) rfl hf ?_
    cases f with
    | completed => exact .completed
    | failed => exact .failed
    | deferred => exact .deferred
    | accepted => cases hf
    | running => cases hf
  | yield s hs =>
    rw [isLive_terminal hs] at hlive
    exact absurd (hlive (by simp)) (by simp)
  | seize s hs => exact .silent (by simp) (by simp [Stage.expects]) (by simp)
  | fail =>
    have hl := hlive (by simp)
    refine .final (by simp) hl rfl ?_
    rcases isLive_cases hl with rfl | rfl
    · exact .rejected
    · exact .failed

theorem RunKept.kept {w w' : World} {id : String} {st st' : Stage}
    (h : RunKept (w.status id) st (w'.status id) st')
    (hothers : ∀ y, y ≠ id → w'.record y = w.record y)
    (hwrites : w'.record id ≠ w.record id → st ≠ .done) :
    Kept id w (.run id st) w' (.run id st') := by
  have hmay (hne : st ≠ .done) : (Party.run id st).holder = some id := if_neg hne
  refine ⟨hothers, fun hne => .inl (hmay (hwrites hne)), fun hne => .inl ?_, fun y => ?_,
    fun y v he => ?_, h.copy, fun y => ?_, h.change, fun hd hr => ?_⟩
  · simp [tenancy, hmay (hwrites (mt World.status_of_record hne))]
  · have hcount := h.count
    by_cases hy : y = id
    · subst hy
      by_cases h1 : st = .done <;> by_cases h2 : st' = .done <;>
        simp_all [tenancy, Party.holder, Party.passes]
    · rw [World.status_of_record (hothers y hy)]
      by_cases h1 : st = .done <;> by_cases h2 : st' = .done <;>
        simp [tenancy, Party.holder, Party.passes, h1, h2, Ne.symm hy]
  · simp only [Party.expects, Option.map_eq_some_iff, Prod.mk.injEq] at he
    obtain ⟨s, hs, rfl, rfl⟩ := he
    exact h.expected s hs
  · by_cases hy : y = id
    · rw [hy, h.stays]
      simp [Party.draws]
    · rw [World.status_of_record (hothers y hy)]
      simp [Party.draws]
  · rw [h.unclaimed hd] at hr
    cases hr

/-- **A step of a run.** -/
theorem runStep_kept {w w' : World} {id : String} {st st' : Stage} (h : StagedStep id w st w' st')
    (hlive : st ≠ .done → isLive (w.status id) = true)
    (hexp : ∀ v, st.expects = some v → w.status id = some v)
    (hsound : (Party.run id st).Sound) : Kept id w (.run id st) w' (.run id st') := by
  have hothers (y : String) (hy : y ≠ id) : w'.record y = w.record y := h.others hy
  obtain ⟨-, wrote, hstep, hwrote⟩ := h
  refine (stageStep_kept hstep hlive hexp hsound).kept hothers fun hne => ?_
  cases wrote with
  | false => exact absurd (by rw [World.record, World.record, hwrote]) hne
  | true => exact hstep.not_done

/-! ## Steps of handlers -/

/-- A commit leaves the submissions alone. -/
def KeepsSubmissions {σ : Type} (d : Dispatcher σ) : Prop :=
  ∀ now tok id p w, (d.commit now tok id p w).2.2.store.submissions = w.store.submissions

/-- **A step of a handler**, over any dispatcher. -/
theorem handlerStep_kept {σ : Type} {d : Dispatcher σ} (hd : KeepsSubmissions d) {p p' : σ}
    {w w' : World} {st st' : HStage} (hstep : HandlerStep d p w st p' w' st')
    (hexp : ∀ y v, st.expects = some (y, v) → w.status y = v)
    (hnew : ∀ y, st.draws = some y → w.status y = none)
    (hsound : (Party.handler st).Sound) : ∃ k, Kept k w (.handler st) w' (.handler st') := by
  -- most steps write nothing
  have still (hsame : w'.store.submissions = w.store.submissions)
      (hcount : ∀ y, tenancy.holds y (.handler st') +
        (Party.passes y (.handler st) (.handler st')).toNat = tenancy.holds y (.handler st))
      (hexp' : ∀ y v, st'.expects = some (y, v) → w.status y = v)
      (hdraws : ∀ y, st'.draws = some y → st.draws = some y)
      (hsound' : (Party.handler st').Sound) :
      ∃ k, Kept k w (.handler st) w' (.handler st') :=
    ⟨"", .still "" hsame hcount hexp' hdraws hsound'⟩
  have quiet (hsame : w'.store.submissions = w.store.submissions) (hst : st' = st) :
      ∃ k, Kept k w (.handler st) w' (.handler st') := by
    subst hst
    exact still hsame (fun y => by rw [Party.passes_self]; rfl) hexp (fun y h => h) hsound
  have idle (hsame : w'.store.submissions = w.store.submissions) (hst' : st' = .idle)
      (hpass : ∀ y, (Party.passes y (.handler st) (.handler .idle)).toNat =
        tenancy.holds y (.handler st)) : ∃ k, Kept k w (.handler st) w' (.handler st') := by
    subst hst'
    exact still hsame (fun y => by rw [hpass]; exact Nat.zero_add _) (fun y v h => by cases h)
      (fun y h => by cases h) (fun id c h => by cases h)
  cases hstep with
  | quiet hadm hsame => exact quiet hsame rfl
  | drop | letGo | refused => exact idle rfl rfl (fun y => rfl)
  | reserve hres => exact quiet rfl rfl
  | refuse hres => exact idle rfl rfl (fun y => rfl)
  | refuseResume hres =>
    exact still rfl (fun y => rfl) hexp (fun y h => by cases h) (fun id c h => by cases h)
  | commit hst hcommit =>
    rename_i id now tok
    have hsame := hd now tok id p w
    rw [hcommit] at hsame
    refine idle hsame rfl fun y => ?_
    rcases hst with rfl | rfl <;> simp [Party.passes, tenancy, Party.holder, HStage.holder]
  | commitFailed hcommit | resumeFailed hcommit =>
    rename_i id now tok e
    have hsame := hd now tok id p w
    rw [hcommit] at hsame
    exact still hsame (fun y => rfl) hexp (fun y h => by cases h) (fun id c h => by cases h)
  | release => exact quiet rfl rfl
  | adopt hcompleted =>
    refine still rfl (fun y => rfl) ?_ (fun y h => by cases h) ?_
    · rintro y v ⟨⟩
      exact hcompleted
    · rintro id c ⟨⟩
      rfl
  | resolve =>
    -- a completed submission is written back as completed
    rename_i sub
    have hdone : sub.status = .completed := hsound _ _ rfl
    have hval (y : String) : World.status { w with store := w.store.putSubmission sub } y =
        w.status y := by
      rw [World.status_put rfl]
      split
      · subst y
        rw [hdone, hexp _ _ rfl]
      · rfl
    refine ⟨sub.id, World.record_put rfl, fun _ => .inr (.inr ⟨_, rfl⟩), fun h => absurd (hval _) h,
      fun y => by rw [hval]; rfl, fun y v h => (by cases h), fun id c h => (by cases h),
      fun y => by rw [hval]; rfl, by rw [hval]; exact .same _, fun hde hr => ?_⟩
    rw [hval, hde] at hr
    cases hr
  | create hstatus =>
    rename_i key hash sub
    have hput := w.store.bindSubmission_submissions key hash sub
    refine ⟨sub.id, .write (hnew sub.id rfl) (World.record_put hput)
      (World.status_put_self hput) (.inr rfl) ?_ (fun y => rfl) ?_ ?_ rfl ?_
      (fun id c h => by cases h) (hstatus ▸ .created) nofun⟩
    · simp [Party.holder, HStage.holder, eq_comm]
    · simp [tenancy, Party.holder, HStage.holder, isLive, hstatus]
    · rintro y v ⟨⟩
      exact ⟨rfl, by rw [hstatus]⟩
    · simp [Party.draws, HStage.draws]
  | abandon =>
    rename_i id key
    have hacc := hexp id _ rfl
    have hgone : (w.store.abandonSubmission id key).2.submissions = _ :=
      (MemoryStore.abandonSubmission_ok hacc).1
    refine ⟨id, .write hacc (fun y hy => ?_) ?_ (.inl rfl) ?_ (fun y => rfl) ?_
      (fun y v h => by cases h) rfl (Nat.zero_le _) (fun id c h => by cases h) .abandoned nofun⟩
    · rw [World.record, World.record, hgone, Table.get?_erase, if_neg hy]
    · rw [World.status, MemoryStore.status_abandonSubmission, if_pos ⟨rfl, hacc⟩]
    · simp [Party.holder, HStage.holder, eq_comm]
    · simp [tenancy, Party.holder, HStage.holder, isLive]
  | claim hclaim =>
    rename_i id sub store
    obtain ⟨hdef, row, rfl, hrow, rfl⟩ := MemoryStore.claimResume_ok hclaim
    refine ⟨row.id, .write hdef (World.record_put rfl) (World.status_put_self rfl) (.inr rfl) ?_
      (fun y => rfl) ?_ ?_ rfl (Nat.le_add_left _ _) (fun id c h => by cases h)
      (hrow ▸ .resumed) (fun _ _ => rfl)⟩
    · simp [Party.holder, HStage.holder, eq_comm]
    · simp [tenancy, Party.holder, HStage.holder, isLive, hrow]
    · rintro y v ⟨⟩
      exact ⟨rfl, by rw [hrow]⟩
  | unclaim =>
    rename_i id
    have hrun := hexp id _ rfl
    rcases w.store.releaseResume_cases id with ⟨hne, -⟩ | ⟨-, row, rfl, hrow, heq⟩
    · exact absurd hrun hne
    have hput : World.store { w with store := w.store.releaseResume row.id } =
        w.store.putSubmission row := heq
    refine ⟨row.id, .write hrun (World.record_put (congrArg (·.submissions) hput))
      (World.status_put_self (congrArg (·.submissions) hput)) (.inl rfl) ?_ (fun y => rfl) ?_
      (fun y v h => by cases h) rfl (Nat.le_add_left _ _) (fun id c h => by cases h)
      (hrow ▸ .deferred) (fun h => by cases h)⟩
    · simp [Party.holder, HStage.holder, eq_comm]
    · simp [tenancy, Party.holder, HStage.holder, isLive, hrow]

/-! ## All parties -/

/-- The parties at work on a store: the counting, with `rest` for the
jobs, what they rely on, and the ids they have drawn. -/
structure Parties (w : World) (rest : String → Nat) (issued : List String) (ps : List Party) :
    Prop where
  held : tenancy.Inv w.status rest ps
  sound : ∀ t ∈ ps, t.Sound
  /-- An id is drawn once, and stored by who drew it. -/
  drawn : ∀ id, weigh (fun t => (decide (t.draws = some id)).toNat) ps +
    (w.status id).isSome.toNat ≤ (decide (id ∈ issued)).toNat

section Parties

variable {w w' : World} {rest rest' : String → Nat} {issued issued' : List String}
  {ps : List Party} {i : Nat} {t t' : Party}

theorem Parties.nil (hrest : ∀ id, rest id = (isLive (w.status id)).toNat)
    (hissued : ∀ id, (w.status id).isSome → id ∈ issued) : Parties w rest issued [] where
  held := ⟨hrest, fun j t hj => by cases hj⟩
  sound t ht := by cases ht
  drawn id := by
    have := hissued id
    rw [weigh_nil, Nat.zero_add]
    cases hst : w.status id <;> simp_all

theorem Parties.move (h : Parties w rest issued ps) (hi : ps[i]? = some t) {k : String}
    (hk : Kept k w t w' t') (hrest : ∀ y, rest' y = rest y + (t.passes y t').toNat) :
    Parties w' rest' issued (ps.set i t') where
  held := by
    refine h.held.move hi k (fun y hy => hk.status_others hy) hk.may (fun y => ?_) hk.expected
    have hcount : _ + _ + (tenancy.live (w.status y)).toNat =
      _ + (tenancy.live (w'.status y)).toNat := hk.count y
    rw [hrest]
    omega
  sound u hu := by
    rcases mem_set_cases hu with rfl | hold
    · exact hk.sound
    · exact h.sound u hold
  drawn y := by
    have hset := weigh_set (fun t : Party => (decide (t.draws = some y)).toNat) hi t'
    have hsum := h.drawn y
    have hone := hk.drawn y
    omega

/-- A party changes and no record does: what it holds more, or less, a job
holds less or more. -/
theorem Parties.swap (h : Parties w rest issued ps) (hi : ps[i]? = some t)
    (hrest : ∀ y, rest' y + tenancy.holds y t' = rest y + tenancy.holds y t)
    (hexp : ∀ y v, t'.expects = some (y, v) → w.status y = v)
    (hdraws : t'.draws = none) (hsound : t'.Sound) : Parties w rest' issued (ps.set i t') where
  held := h.held.move hi "" (fun _ _ => rfl) (fun hne => absurd rfl hne)
    (fun y => by rw [hrest]) hexp
  sound u hu := by
    rcases mem_set_cases hu with rfl | hold
    · exact hsound
    · exact h.sound u hold
  drawn y := by
    have hset := weigh_set (fun t : Party => (decide (t.draws = some y)).toNat) hi t'
    have hsum := h.drawn y
    simp only [hdraws, reduceCtorEq, decide_false, Bool.toNat_false] at hset
    omega

/-- A new party, that may take over from a job. -/
theorem Parties.spawn (h : Parties w rest issued ps)
    (hrest : ∀ y, rest' y + tenancy.holds y t = rest y) (hexpects : t.expects = none)
    (hsound : t.Sound) (hissued : ∀ y ∈ issued, y ∈ issued')
    (hdraws : ∀ y, t.draws = some y → y ∉ issued ∧ y ∈ issued') :
    Parties w rest' issued' (ps ++ [t]) where
  held := h.held.spawn hrest hexpects
  sound u hu := by
    rcases List.mem_append.mp hu with hold | hnew
    · exact h.sound u hold
    · exact List.mem_singleton.mp hnew ▸ hsound
  drawn y := by
    have hsum := h.drawn y
    have hnew := hissued y
    have hdraw := hdraws y
    rw [weigh_append, weigh_cons, weigh_nil]
    by_cases hy : y ∈ issued <;> by_cases ht : t.draws = some y <;> simp_all

/-- A party that holds a submission finds it live. -/
theorem Parties.live_of_holder (h : Parties w rest issued ps) (hi : ps[i]? = some t) {id : String}
    (ht : t.holder = some id) : isLive (w.status id) = true :=
  h.held.live_of_holds hi (by simp [tenancy, ht])

theorem Parties.none_of_draws (h : Parties w rest issued ps) (hi : ps[i]? = some t) {id : String}
    (ht : t.draws = some id) : w.status id = none := by
  have hsum := h.drawn id
  have hle := le_weigh (fun t : Party => (decide (t.draws = some id)).toNat)
    (List.mem_of_getElem? hi)
  simp only [ht, decide_true, Bool.toNat_true] at hle
  have hone := Bool.toNat_le (decide (id ∈ issued))
  cases hst : w.status id with
  | none => rfl
  | some st =>
    rw [hst, Option.isSome_some, Bool.toNat_true] at hsum
    omega

/-- A step of a run among the parties. -/
theorem Parties.run (h : Parties w rest issued ps) {id : String} {st st' : Stage}
    (hi : ps[i]? = some (.run id st)) (hstep : StagedStep id w st w' st') :
    Kept id w (.run id st) w' (.run id st') := by
  refine runStep_kept hstep (fun hne => h.live_of_holder hi (if_neg hne)) (fun v hv => ?_)
    (h.sound _ (List.mem_of_getElem? hi))
  exact h.held.expected i _ hi id (some v) (by simp [tenancy, Party.expects, hv])

/-- A step of a handler among the parties. -/
theorem Parties.handler (h : Parties w rest issued ps) {σ : Type} {d : Dispatcher σ}
    (hd : KeepsSubmissions d) {p p' : σ} {st st' : HStage} (hi : ps[i]? = some (.handler st))
    (hstep : HandlerStep d p w st p' w' st') :
    ∃ k, Kept k w (.handler st) w' (.handler st') :=
  handlerStep_kept hd hstep (h.held.expected i _ hi) (fun _ hy => h.none_of_draws hi hy)
    (h.sound _ (List.mem_of_getElem? hi))

end Parties

end Scintx.System
