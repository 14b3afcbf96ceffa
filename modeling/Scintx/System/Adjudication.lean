/-
Scintx.System.Adjudication — concurrent resolutions of one submission.

`Adjudicate` reads `decision_id`, files a decision that names it as
`prior_decision_id`, and writes the record it read back with the new id.
Nothing makes sure that the record is still the one it read. Two calls
that read the same decision both succeed, and the one that writes first
is no longer in the chain (`resolution_lost`).

The state is the store, any number of calls of `Adjudicate` on one
submission, and the ids of the decisions whose calls have returned
successfully. Decision ids are drawn at random and taken to be new. The
invariant (`ResolveInv`) follows the chain by `Lib.Linked`: every call
keeps it, except a `PutSubmission` that finds a decision that is not the
one its call replaces, which `InTurn` excludes.
-/
import Scintx.Lib.Chain
import Scintx.System.Queue

namespace Scintx.System

open Scintx.Lib Scintx.Api Scintx.Store Scintx.Orchestrator Scintx.Workers Scintx.Server

/-! ## The system -/

structure ResolveState (σ : Type) where
  pool : σ
  world : World
  calls : List Handler
  /-- The decision ids drawn so far. -/
  drawn : List String
  /-- The decisions whose calls have returned successfully. -/
  resolved : List String

inductive ResolveAction where
  | request (req : AdjudicateRequest)
  | call (i : Nat) (ch : HandlerChoice)

/-- The stored `decision_id` of a submission. -/
def decisionOf (store : MemoryStore) (subID : String) : Option String :=
  (store.submissions.get? subID).bind (·.val.decisionID)

/-- The decision that a stored decision replaces. -/
def priorOf (store : MemoryStore) (id : String) : Option String :=
  (store.getDecision id).bind priorDecisionID

/-- The decision a call has made and not put in place yet. -/
def draft : Handler → Option PolicyDecision
  | .adjudicatePutDecision _ _ dec _ | .adjudicatePutSubmission _ _ dec _ => some dec
  | _ => none

/-- The decision of a call that is about to return successfully. -/
def acknowledges : Handler → Option PolicyDecision
  | .adjudicateEmit _ _ dec _ => some dec
  | _ => none

def resolveStep {σ : Type} (d : Dispatcher σ) (subID : String) :
    ResolveAction → ResolveState σ → Option (ResolveState σ)
  | .request req, s => some { s with calls := s.calls ++ [.adjudicateGet subID req] }
  | .call i ch, s =>
    (s.calls[i]?).bind fun h =>
      (h.step d ch s.pool s.world).bind fun (pool, w, h') =>
        let s' : ResolveState σ :=
          { s with pool := pool, world := w, calls := s.calls.set i h'
                   resolved := ((acknowledges h).map (·.id)).toList ++ s.resolved }
        match h' with
        | .adjudicatePutDecision _ _ dec _ =>
          -- the id that this call draws is new
          if dec.id ∈ s.drawn then none else some { s' with drawn := dec.id :: s.drawn }
        | _ => some s'

/-- Calls on a submission whose machine decision is in place. -/
def resolveSys {σ : Type} (d : Dispatcher σ) (subID machine : String) :
    Sys (ResolveState σ) ResolveAction where
  init s := s.calls = [] ∧ s.resolved = [] ∧ decisionOf s.world.store subID = some machine ∧
    machine ∈ s.drawn
  step := resolveStep d subID

/-- The submission a call is about to write, and the decision that it
replaces. -/
def replaces : Handler → Option (Submission × PolicyDecision)
  | .adjudicatePutSubmission sub prior _ _ => some (sub, prior)
  | _ => none

/-- A call writes the submission only if the decision in place is the one
that its own decision replaces. -/
def InTurn {σ : Type} (s : ResolveState σ) : ResolveAction → Prop
  | .request _ => True
  | .call i _ => ∀ h ∈ s.calls[i]?, ∀ x ∈ replaces h,
      decisionOf s.world.store x.1.id = some x.2.id

instance {σ : Type} (s : ResolveState σ) : DecidablePred (InTurn s)
  | .request _ => .isTrue trivial
  | .call i _ => inferInstanceAs (Decidable (∀ h ∈ s.calls[i]?, ∀ x ∈ replaces h,
      decisionOf s.world.store x.1.id = some x.2.id))

/-! ## What one call of `Adjudicate` does -/

/-- Every step of a call, with the store before and after. -/
inductive AdjudicateCall (store : MemoryStore) : Handler → MemoryStore → Handler → Prop
  | refuse {h : Handler} {answer : Response} (hopen : acknowledges h = none) :
      AdjudicateCall store h store (.answered answer)
  | read {sub : Submission} {priorID : String} {req : AdjudicateRequest} :
      AdjudicateCall store (.adjudicateGet sub.id req) store (.adjudicatePrior sub priorID req)
  | draft {sub : Submission} {priorID randHex : String} {prior : PolicyDecision}
      {req : AdjudicateRequest} {now : Time} :
      AdjudicateCall store (.adjudicatePrior sub priorID req) store
        (.adjudicatePutDecision sub prior (adjudication req sub prior randHex now) req)
  | file {sub : Submission} {prior dec : PolicyDecision} {req : AdjudicateRequest} :
      AdjudicateCall store (.adjudicatePutDecision sub prior dec req) (store.putDecision dec)
        (.adjudicatePutSubmission { sub with decisionID := some dec.id } prior dec req)
  | point {sub : Submission} {prior dec : PolicyDecision} {req : AdjudicateRequest} :
      AdjudicateCall store (.adjudicatePutSubmission sub prior dec req) (store.putSubmission sub)
        (.adjudicateEmit sub prior dec req)
  | acknowledge {store' : MemoryStore} {sub : Submission} {prior dec : PolicyDecision}
      {req : AdjudicateRequest} {answer : Response}
      (hsub : store'.submissions = store.submissions)
      (hdec : store'.decisions = store.decisions) :
      AdjudicateCall store (.adjudicateEmit sub prior dec req) store' (.answered answer)

/-- What holds of a call, given the ids in the chain and those drawn. -/
def CallInv (subID machine : String) (store : MemoryStore) (ids drawn : List String) :
    Handler → Prop
  | .adjudicateGet id _ => id = subID
  | .adjudicatePrior sub _ _ => sub.id = subID
  | .adjudicatePutDecision sub prior dec _ =>
    sub.id = subID ∧ (priorDecisionID dec = some prior.id ∧ dec.encodable = true) ∧
      dec.id ∈ drawn ∧ dec.id ∉ machine :: ids
  | .adjudicatePutSubmission sub prior dec _ =>
    sub.id = subID ∧ (sub.decisionID = some dec.id ∧ priorOf store dec.id = some prior.id) ∧
      dec.id ∈ drawn ∧ dec.id ∉ machine :: ids
  | .adjudicateEmit _ _ dec _ => dec.id ∈ ids
  | .answered _ => True
  | _ => False

section Given

variable {σ : Type} {d : Dispatcher σ} {ch : HandlerChoice} {subID machine : String}
  {p p' : σ} {w w' : World} {h h' : Handler} {ids drawn : List String}

theorem CallInv.call (hinv : CallInv subID machine w.store ids drawn h)
    (hstep : h.step d ch p w = some (p', w', h')) : AdjudicateCall w.store h w'.store h' := by
  cases Handler.step_move hstep with
  | notAdjudicable | noPrior | notFiled | notOverruled => exact .refuse rfl
  | adjudicable hreq hget hprior =>
    obtain ⟨rfl, -⟩ := getSubmission_some hget
    exact .read
  | resolved => exact .draft
  | filed => exact .file
  | overruled => exact .point
  | told => exact .acknowledge (World.emit_submissions ..) (World.emit_decisions ..)
  | _ => exact hinv.elim

end Given

/-! ## Stores -/

section Stores

variable {store store' : MemoryStore} {id subID : String}

theorem priorOf_of_decisions (h : store'.decisions = store.decisions) (id : String) :
    priorOf store' id = priorOf store id := by
  rw [priorOf, priorOf, MemoryStore.getDecision, MemoryStore.getDecision, h]

theorem decisionOf_of_submissions (h : store'.submissions = store.submissions) (subID : String) :
    decisionOf store' subID = decisionOf store subID := by
  rw [decisionOf, decisionOf, h]

/-- The decision in place after the submission was written. -/
theorem decisionOf_putSubmission (store : MemoryStore) (sub : Submission) :
    decisionOf (store.putSubmission sub) sub.id = sub.decisionID := by
  rw [decisionOf, MemoryStore.putSubmission, SubmissionTable.get?_put_of, if_pos rfl]
  rfl

theorem getDecision_putDecision {dec : PolicyDecision} (henc : dec.encodable = true) (id : String) :
    (store.putDecision dec).getDecision id =
      if id = dec.id then some dec else store.getDecision id := by
  have hclone : cloneJSON dec = dec := if_pos henc
  have hput := Table.get?_put store.decisions (.of dec) id
  simp only [Stored.val_of, hclone] at hput
  rw [MemoryStore.getDecision, MemoryStore.putDecision, hput]
  split
  · simp [hclone]
  · rfl

theorem priorOf_putDecision {dec : PolicyDecision} (henc : dec.encodable = true) (id : String) :
    priorOf (store.putDecision dec) id =
      if id = dec.id then priorDecisionID dec else priorOf store id := by
  rw [priorOf, getDecision_putDecision henc]
  split <;> rfl

end Stores

/-! ## The invariant -/

/-- The chain from the decision in place has the given ids, among them all
whose calls have returned. -/
structure ResolveInv {σ : Type} (subID machine : String) (ids : List String) (s : ResolveState σ) :
    Prop where
  chain : ∃ cur, decisionOf s.world.store subID = some cur ∧
    Linked (priorOf s.world.store) machine cur ids
  resolved : ∀ id ∈ s.resolved, id ∈ ids
  drawn : ∀ id ∈ machine :: ids, id ∈ s.drawn
  calls : ∀ h ∈ s.calls, CallInv subID machine s.world.store ids s.drawn h
  /-- Two calls have two decisions. -/
  apart : ∀ (i j : Nat) (h h' : Handler) (dec dec' : PolicyDecision), s.calls[i]? = some h →
    s.calls[j]? = some h' → draft h = some dec → draft h' = some dec' → dec.id = dec'.id → i = j

section Moves

variable {σ : Type} {subID machine : String} {ids ids' drawn drawn' : List String}
  {store store' : MemoryStore} {h : Handler}

/-- What a call relies on, after a step of another. -/
theorem CallInv.mono (hinv : CallInv subID machine store ids drawn h)
    (hprior : ∀ dec, draft h = some dec → priorOf store' dec.id = priorOf store dec.id)
    (hdrawn : ∀ id ∈ drawn, id ∈ drawn') (hids : ∀ id ∈ ids, id ∈ ids')
    (hnew : ∀ dec, draft h = some dec → dec.id ∉ machine :: ids → dec.id ∉ machine :: ids') :
    CallInv subID machine store' ids' drawn' h := by
  cases h with
  | adjudicateGet | adjudicatePrior | answered => exact hinv
  | adjudicatePutDecision sub prior dec req =>
    obtain ⟨hsub, hdec, hin, hout⟩ := hinv
    exact ⟨hsub, hdec, hdrawn _ hin, hnew dec rfl hout⟩
  | adjudicatePutSubmission sub prior dec req =>
    obtain ⟨hsub, ⟨hpoints, hlink⟩, hin, hout⟩ := hinv
    exact ⟨hsub, ⟨hpoints, (hprior dec rfl).trans hlink⟩, hdrawn _ hin, hnew dec rfl hout⟩
  | adjudicateEmit => exact hids _ hinv
  | _ => exact hinv.elim

theorem CallInv.draft_new (hinv : CallInv subID machine store ids drawn h) {dec : PolicyDecision}
    (hdraft : draft h = some dec) : dec.id ∈ drawn ∧ dec.id ∉ machine :: ids := by
  cases h with
  | adjudicatePutDecision | adjudicatePutSubmission =>
    cases hdraft
    exact hinv.2.2
  | _ => cases hdraft

/-- A move of one call: what is left to show of it and of the others. -/
theorem ResolveInv.move {s s' : ResolveState σ} (hinv : ResolveInv subID machine ids s) {i : Nat}
    {h' : Handler} (hi : s.calls[i]? = some h) (hcalls : s'.calls = s.calls.set i h')
    (hchain : ∃ cur, decisionOf s'.world.store subID = some cur ∧
      Linked (priorOf s'.world.store) machine cur ids')
    (hresolved : ∀ id ∈ s'.resolved, id ∈ ids') (hdrawn : ∀ id ∈ machine :: ids', id ∈ s'.drawn)
    (hmine : CallInv subID machine s'.world.store ids' s'.drawn h')
    (hothers : ∀ j k, i ≠ j → s.calls[j]? = some k →
      CallInv subID machine s'.world.store ids' s'.drawn k)
    (hdraft : ∀ dec, draft h' = some dec → draft h = some dec ∨ dec.id ∉ s.drawn) :
    ResolveInv subID machine ids' s' := by
  have hget (j : Nat) : s'.calls[j]? = if i = j then some h' else s.calls[j]? := by
    rw [hcalls]
    by_cases hij : i = j
    · subst hij
      rw [if_pos rfl, List.getElem?_set_self (List.getElem?_eq_some_iff.mp hi).1]
    · rw [if_neg hij, List.getElem?_set_ne hij]
  -- the decision of the call that moved is no other call's
  have hmove (j : Nat) (k : Handler) (dec dec' : PolicyDecision) (hj : s.calls[j]? = some k)
      (hdec : draft h' = some dec) (hdec' : draft k = some dec') (heq : dec.id = dec'.id) :
      i = j := by
    rcases hdraft dec hdec with hold | hnew
    · exact hinv.apart i j h k dec dec' hi hj hold hdec' heq
    · exact absurd (heq ▸ (CallInv.draft_new (hinv.calls k (List.mem_of_getElem? hj)) hdec').1) hnew
  refine ⟨hchain, hresolved, hdrawn, fun k hk => ?_, fun j j' k k' dec dec' hj hj' hd hd' heq => ?_⟩
  · obtain ⟨j, hj⟩ := List.mem_iff_getElem?.mp hk
    rw [hget] at hj
    split at hj
    · cases hj
      exact hmine
    · rename_i hij
      exact hothers j k hij hj
  · rw [hget] at hj hj'
    split at hj <;> split at hj'
    · rename_i hij hij'
      exact hij.symm.trans hij'
    · rename_i hij _
      cases hj
      exact hij.symm.trans (hmove j' k' dec dec' hj' hd hd' heq)
    · rename_i hij'
      cases hj'
      exact (hij'.symm.trans (hmove j k dec' dec hj hd' hd heq.symm)).symm
    · exact hinv.apart j j' k k' dec dec' hj hj' hd hd' heq

/-- A move that leaves the store alone. -/
theorem ResolveInv.quiet {s : ResolveState σ} (hinv : ResolveInv subID machine ids s) {i : Nat}
    {h' : Handler} (hi : s.calls[i]? = some h) (pool : σ) {w : World}
    (hsub : w.store.submissions = s.world.store.submissions)
    (hdec : w.store.decisions = s.world.store.decisions) {resolved : List String}
    (hresolved : ∀ id ∈ resolved, id ∈ ids)
    (hmine : ∀ drawn, CallInv subID machine w.store ids drawn h') (hdraft : draft h' = none) :
    ResolveInv subID machine ids
      { s with pool := pool, world := w, calls := s.calls.set i h', resolved := resolved } := by
  have hprior := priorOf_of_decisions hdec
  obtain ⟨cur, hcur, hlinked⟩ := hinv.chain
  refine hinv.move hi rfl ⟨cur, ?_, hlinked.congr fun id _ => hprior id⟩ hresolved hinv.drawn
    (hmine s.drawn) (fun j k _ hj => ?_) (fun dec hd => by cases hdraft.symm.trans hd)
  · exact (decisionOf_of_submissions hsub subID).trans hcur
  · exact (hinv.calls k (List.mem_of_getElem? hj)).mono (fun dec _ => hprior dec.id)
      (fun _ hid => hid) (fun _ hid => hid) (fun _ _ hout => hout)

end Moves

/-! ## Steps -/

section Given

variable {σ : Type} {d : Dispatcher σ} {subID machine : String} {ids : List String}
  {s s' : ResolveState σ} {i : Nat} {sub : Submission} {prior dec : PolicyDecision}
  {req : AdjudicateRequest} {w : World} {pool : σ}

theorem ResolveInv.request (hinv : ResolveInv subID machine ids s) (req : AdjudicateRequest) :
    ResolveInv subID machine ids { s with calls := s.calls ++ [.adjudicateGet subID req] } := by
  refine ⟨hinv.chain, hinv.resolved, hinv.drawn, fun h hh => ?_,
    fun i j h h' dec dec' hi hj hd hd' heq => ?_⟩
  · rcases List.mem_append.mp hh with hold | hnew
    · exact hinv.calls h hold
    · rw [List.mem_singleton.mp hnew]
      rfl
  · have hold {i : Nat} {h : Handler} {dec : PolicyDecision}
        (hi : (s.calls ++ [.adjudicateGet subID req])[i]? = some h) (hd : draft h = some dec) :
        s.calls[i]? = some h := by
      rw [List.getElem?_append] at hi
      split at hi
      · exact hi
      · rw [List.mem_singleton.mp (List.mem_of_getElem? hi)] at hd
        cases hd
    exact hinv.apart i j h h' dec dec' (hold hi hd) (hold hj hd') hd hd' heq

/-- A call makes its decision, under a new id. -/
theorem ResolveInv.drafted (hinv : ResolveInv subID machine ids s) {priorID : String}
    (hi : s.calls[i]? = some (.adjudicatePrior sub priorID req))
    (hstore : w.store = s.world.store) {randHex : String} {now : Time}
    (hdec : adjudication req sub prior randHex now = dec) (hnew : dec.id ∉ s.drawn) :
    ResolveInv subID machine ids
      { s with pool := pool, world := w, drawn := dec.id :: s.drawn
               calls := s.calls.set i (.adjudicatePutDecision sub prior dec req) } := by
  obtain ⟨cur, hcur, hlinked⟩ := hinv.chain
  rw [← hstore] at hcur hlinked
  have hsub := hinv.calls _ (List.mem_of_getElem? hi)
  refine hinv.move hi rfl ⟨cur, hcur, hlinked⟩ hinv.resolved (fun id hid => ?_) ?_
    (fun j k _ hj => ?_) fun dec' hdraft => ?_
  · exact List.mem_cons_of_mem _ (hinv.drawn id hid)
  · subst hdec
    exact ⟨hsub, ⟨priorDecisionID_adjudication .., rfl⟩, List.mem_cons_self,
      fun hmem => hnew (hinv.drawn _ hmem)⟩
  · exact (hinv.calls k (List.mem_of_getElem? hj)).mono (fun dec' _ => by rw [hstore])
      (fun _ hid => List.mem_cons_of_mem _ hid) (fun _ hid => hid) (fun _ _ hout => hout)
  · cases hdraft
    exact .inr hnew

/-- A call files its decision, which is in nobody's way. -/
theorem ResolveInv.filed (hinv : ResolveInv subID machine ids s)
    (hi : s.calls[i]? = some (.adjudicatePutDecision sub prior dec req))
    (hstore : w.store = s.world.store.putDecision dec) :
    ResolveInv subID machine ids
      { s with pool := pool, world := w
               calls := s.calls.set i (.adjudicatePutSubmission
                 { sub with decisionID := some dec.id } prior dec req) } := by
  obtain ⟨hsub, ⟨hprior, henc⟩, hin, hout⟩ := hinv.calls _ (List.mem_of_getElem? hi)
  obtain ⟨cur, hcur, hlinked⟩ := hinv.chain
  have hlink (id : String) (hne : id ≠ dec.id) :
      priorOf w.store id = priorOf s.world.store id := by
    rw [hstore, priorOf_putDecision henc, if_neg hne]
  have hpoints : decisionOf w.store subID = decisionOf s.world.store subID :=
    decisionOf_of_submissions (by rw [hstore]; rfl) subID
  refine hinv.move hi rfl ⟨cur, hpoints.trans hcur, hlinked.congr fun id hid => ?_⟩
    hinv.resolved hinv.drawn ?_ (fun j k hij hj => ?_) fun dec' hdraft => .inl hdraft
  · exact hlink id fun heq => hout (List.mem_cons_of_mem machine (heq ▸ hid))
  · refine ⟨hsub, ⟨rfl, ?_⟩, hin, hout⟩
    rw [hstore, priorOf_putDecision henc, if_pos rfl, hprior]
  · refine (hinv.calls k (List.mem_of_getElem? hj)).mono (fun dec' hdec' => hlink _ fun heq => ?_)
      (fun _ hid => hid) (fun _ hid => hid) (fun _ _ hout => hout)
    exact hij (hinv.apart i j _ k dec dec' hi hj rfl hdec' heq.symm)

/-- A call puts its decision in place: the chain grows by it, since the
decision in place is the one that it replaces. -/
theorem ResolveInv.pointed (hinv : ResolveInv subID machine ids s)
    (hi : s.calls[i]? = some (.adjudicatePutSubmission sub prior dec req))
    (hturn : decisionOf s.world.store sub.id = some prior.id)
    (hstore : w.store = s.world.store.putSubmission sub) :
    ResolveInv subID machine (dec.id :: ids)
      { s with pool := pool, world := w
               calls := s.calls.set i (.adjudicateEmit sub prior dec req) } := by
  obtain ⟨rfl, ⟨hpoints, hprior⟩, hin, hout⟩ := hinv.calls _ (List.mem_of_getElem? hi)
  obtain ⟨cur, hcur, hlinked⟩ := hinv.chain
  obtain rfl : cur = prior.id := Option.some.inj (hcur.symm.trans hturn)
  have hlink (id : String) : priorOf w.store id = priorOf s.world.store id :=
    priorOf_of_decisions (by rw [hstore]; rfl) id
  have hput : decisionOf w.store sub.id = some dec.id := by
    rw [hstore, decisionOf_putSubmission, hpoints]
  rw [List.mem_cons, not_or] at hout
  refine hinv.move hi rfl ⟨dec.id, hput, ?_⟩ (fun id hid => ?_) (fun id hid => ?_)
    List.mem_cons_self (fun j k hij hj => ?_) fun dec' hdraft => by cases hdraft
  · exact .link hout.1 ((hlink dec.id).trans hprior) (hlinked.congr fun id _ => hlink id)
  · exact List.mem_cons_of_mem _ (hinv.resolved id hid)
  · simp only [List.mem_cons] at hid
    rcases hid with rfl | rfl | hid
    · exact hinv.drawn _ List.mem_cons_self
    · exact hin
    · exact hinv.drawn id (List.mem_cons_of_mem machine hid)
  · refine (hinv.calls k (List.mem_of_getElem? hj)).mono (fun dec' _ => hlink dec'.id)
      (fun _ hid => hid) (fun _ hid => List.mem_cons_of_mem _ hid) fun dec' hdec' hnot hmem => ?_
    simp only [List.mem_cons] at hmem hnot
    rcases hmem with hm | heq | hmem
    · exact hnot (.inl hm)
    · exact hij (hinv.apart i j _ k dec dec' hi hj rfl hdec' heq.symm)
    · exact hnot (.inr hmem)

/-- **Every step keeps the invariant**, if calls write in turn. -/
theorem ResolveInv.step (hinv : ResolveInv subID machine ids s) {a : ResolveAction}
    (hturn : InTurn s a) (hstep : resolveStep d subID a s = some s') :
    ∃ ids', ResolveInv subID machine ids' s' := by
  cases a with
  | request req =>
    cases hstep
    exact ⟨ids, hinv.request req⟩
  | call i ch =>
    simp only [resolveStep, Option.bind_eq_some_iff] at hstep
    obtain ⟨h, hi, ⟨pool, w, h'⟩, hcall, hstep⟩ := hstep
    have hmine := hinv.calls h (List.mem_of_getElem? hi)
    have hinversion := hmine.call hcall
    generalize hstore' : w.store = store' at hinversion
    cases hinversion with
    | refuse hopen =>
      simp only [hopen, Option.map_none, Option.toList_none, List.nil_append,
        Option.some.injEq] at hstep
      subst hstep
      exact ⟨ids, hinv.quiet hi pool (by rw [hstore']) (by rw [hstore']) hinv.resolved
        (fun _ => trivial) rfl⟩
    | read =>
      cases hstep
      exact ⟨ids, hinv.quiet hi pool (by rw [hstore']) (by rw [hstore']) hinv.resolved
        (fun _ => hmine) rfl⟩
    | draft =>
      simp only [acknowledges, Option.map_none, Option.toList_none, List.nil_append] at hstep
      split at hstep
      · cases hstep
      · rename_i hnew
        cases hstep
        exact ⟨ids, hinv.drafted hi hstore' rfl hnew⟩
    | file =>
      cases hstep
      exact ⟨ids, hinv.filed hi hstore'⟩
    | point =>
      cases hstep
      rename_i sub prior dec req
      exact ⟨dec.id :: ids, hinv.pointed hi (hturn _ hi (sub, prior) rfl) hstore'⟩
    | acknowledge hsub hdec =>
      cases hstep
      refine ⟨ids, hinv.quiet hi pool (by rw [hstore', hsub]) (by rw [hstore', hdec])
        (fun id hid => ?_) (fun _ => trivial) rfl⟩
      rcases List.mem_cons.mp hid with rfl | hold
      · exact hmine
      · exact hinv.resolved id hold

/-! ## Runs -/

theorem resolveInv_reach (h : (resolveSys d subID machine).Reach InTurn s) :
    ∃ ids, ResolveInv subID machine ids s := by
  refine h.invariant (I := fun s => ∃ ids, ResolveInv subID machine ids s) ?_ ?_
  · rintro s ⟨hcalls, hresolved, hdecision, hdrawn⟩
    refine ⟨[], ⟨machine, hdecision, .stop⟩, fun id hid => ?_, fun id hid => ?_, fun h hh => ?_,
      fun i j h h' dec dec' hi => ?_⟩
    · rw [hresolved] at hid
      cases hid
    · rwa [List.mem_singleton.mp hid]
    · rw [hcalls] at hh
      cases hh
    · rw [hcalls] at hi
      cases hi
  · rintro s a s' ⟨ids, hinv⟩ hturn hstep
    exact hinv.step hturn hstep

/-- **Resolutions form one chain.** In every interleaving of calls of
`Adjudicate` in which each call writes the submission only while the
decision it replaces is in place: following `prior_decision_id` from
`decision_id` ends at the machine decision, visits no decision twice, and
visits every decision whose call has returned successfully. -/
theorem resolutions_form_chain (h : (resolveSys d subID machine).Reach InTurn s) :
    ∃ cur ids, decisionOf s.world.store subID = some cur ∧
      Linked (priorOf s.world.store) machine cur ids ∧ ids.Nodup ∧ ∀ id ∈ s.resolved, id ∈ ids := by
  obtain ⟨ids, hinv⟩ := resolveInv_reach h
  obtain ⟨cur, hcur, hlinked⟩ := hinv.chain
  exact ⟨cur, ids, hcur, hlinked, hlinked.nodup, hinv.resolved⟩

end Given

/-! ## Two resolutions at once -/

def machineDecision : PolicyDecision where
  id := "dec_m"
  submissionID := "sub_a"
  decision := .deny
  policy := { id := "registry-default", version := "1" }
  evaluatedAt := 0
  inputResultIDs := []
  reasons := []

/-- A submission that the policy denied. -/
def denied : ResolveState QueuePool where
  pool := newQueuePool {} "h"
  world :=
    { store := ((({} : MemoryStore).putDecision machineDecision).putSubmission
        { id := "sub_a", schemaVersion := "1.0.0", artifact := {}, requestedCapabilities := []
          policyRef := none, status := .completed, createdAt := 0, decisionID := some "dec_m" })
      emitter := { source := "", seq := 0 } }
  calls := []
  drawn := ["dec_m"]
  resolved := []

def requests : List ResolveAction :=
  [.request { decision := .allow }, .request { decision := .deny }]

/-- The two reads of a call. -/
def reads (i : Nat) (randHex : String) : List ResolveAction :=
  [.call i {}, .call i { randHex := randHex }]

/-- The two writes of a call, and its return. -/
def writes (i : Nat) : List ResolveAction :=
  [.call i {}, .call i {}, .call i {}]

theorem denied_reach {ok : ResolveState QueuePool → ResolveAction → Prop} :
    (resolveSys queueDispatcher "sub_a" "dec_m").Reach ok denied :=
  Sys.Reach.init ⟨rfl, rfl, rfl, List.mem_singleton.mpr rfl⟩

/-- One after the other, both are in the chain. -/
theorem resolutions_form_chain_twice :
    ∃ s, (resolveSys queueDispatcher "sub_a" "dec_m").Reach InTurn s ∧
      s.resolved = ["dec_b", "dec_a"] ∧
      ∃ cur ids, decisionOf s.world.store "sub_a" = some cur ∧
        Linked (priorOf s.world.store) "dec_m" cur ids ∧ ids.Nodup ∧
        ∀ id ∈ s.resolved, id ∈ ids := by
  have hrun : ((resolveSys queueDispatcher "sub_a" "dec_m").run InTurn
      (requests ++ reads 0 "a" ++ writes 0 ++ reads 1 "b" ++ writes 1) denied).map
        (fun s => s.resolved) = some ["dec_b", "dec_a"] := by
    decide +kernel
  obtain ⟨s, hreach, hresolved⟩ := denied_reach.of_run_map hrun
  exact ⟨s, hreach, hresolved, resolutions_form_chain hreach⟩

/-- Both calls read the machine decision before either writes. Both
succeed, and the chain from the decision in place does not visit the
first. -/
theorem resolution_lost :
    ∃ s, (resolveSys queueDispatcher "sub_a" "dec_m").Reach (fun _ _ => True) s ∧
      "dec_a" ∈ s.resolved ∧ "dec_b" ∈ s.resolved ∧
      ∀ cur ids, decisionOf s.world.store "sub_a" = some cur →
        Linked (priorOf s.world.store) "dec_m" cur ids → "dec_a" ∉ ids := by
  have hrun : ((resolveSys queueDispatcher "sub_a" "dec_m").run (fun _ _ => True)
      (requests ++ reads 0 "a" ++ reads 1 "b" ++ writes 0 ++ writes 1) denied).map
        (fun s => (s.resolved, decisionOf s.world.store "sub_a", priorOf s.world.store "dec_b")) =
      some (["dec_b", "dec_a"], some "dec_b", some "dec_m") := by
    decide +kernel
  obtain ⟨s, hreach, heq⟩ := denied_reach.of_run_map hrun
  simp only [Prod.mk.injEq] at heq
  obtain ⟨hresolved, hdecision, hprior⟩ := heq
  refine ⟨s, hreach, by simp [hresolved], by simp [hresolved],
    fun cur ids hcur hlinked => ?_⟩
  cases hdecision.symm.trans hcur
  have hchain : Linked (priorOf s.world.store) "dec_m" "dec_b" ["dec_b"] :=
    .link (by decide) hprior .stop
  rw [hlinked.unique hchain]
  decide

end Scintx.System
