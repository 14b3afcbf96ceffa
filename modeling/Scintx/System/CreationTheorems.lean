/-
Scintx.System.CreationTheorems — idempotency keys under concurrency, and
what becomes of a submission whose commit fails.

§1 is the invariant: a submission is stored exactly from its creation to
its abandonment, a key is bound to it for as long, and the log holds of
each creator what its handler says (`Fate`). It is kept by every call
because a call logs nothing about anybody else's submission, except that
it was answered with it.

§2 concludes for every interleaving. §3 is about the answers: a 202 for a
submission whose creator has NOT committed yet promises what the commit
may still take back.
-/
import Scintx.System.Creation

namespace Scintx.System

open Scintx.Lib Scintx.Api Scintx.Store Scintx.Orchestrator Scintx.Workers Scintx.Server

/-! ## §1 What the log says -/

/-- The submission was created under the key, with the fingerprint, and
has not been abandoned. -/
def Live (log : List CreationEvent) (key hash id : String) : Prop :=
  .created key hash id ∈ log ∧ .abandoned id ∉ log

def Created (log : List CreationEvent) (id : String) : Prop :=
  ∃ key hash, .created key hash id ∈ log

/-- How often a job of the submission was committed. -/
def commits (log : List CreationEvent) (id : String) : Nat :=
  log.count (.committed id)

/-- How often the submission was abandoned. -/
def abandons (log : List CreationEvent) (id : String) : Nat :=
  log.count (.abandoned id)

/-- What has become of the submission of a creator, by where its handler
stands. -/
def Fate (log : List CreationEvent) (id : String) : Handler → Prop
  | .createReserve .. | .createPut .. =>
    ¬ Created log id ∧ commits log id = 0 ∧ abandons log id = 0
  | .createCommit .. | .createAbandon .. =>
    Created log id ∧ commits log id = 0 ∧ abandons log id = 0
  | _ =>
    (¬ Created log id ∧ commits log id = 0 ∧ abandons log id = 0) ∨
    (Created log id ∧ commits log id = 1 ∧ abandons log id = 0) ∨
    (Created log id ∧ commits log id = 0 ∧ abandons log id = 1)

/-- The events that say nothing of the submission leave its fate alone. -/
structure Silent (es : List CreationEvent) (id : String) : Prop where
  created : ∀ key hash, .created key hash id ∉ es
  committed : .committed id ∉ es
  abandoned : .abandoned id ∉ es

theorem Silent.created_iff {es log : List CreationEvent} {id : String} (h : Silent es id) :
    Created (es ++ log) id ↔ Created log id := by
  constructor
  · rintro ⟨key, hash, hmem⟩
    exact ⟨key, hash, (List.mem_append.mp hmem).resolve_left (h.created key hash)⟩
  · rintro ⟨key, hash, hmem⟩
    exact ⟨key, hash, List.mem_append_right _ hmem⟩

theorem Silent.abandoned_iff {es log : List CreationEvent} {id : String} (h : Silent es id) :
    .abandoned id ∈ es ++ log ↔ .abandoned id ∈ log := by
  simp only [List.mem_append, h.abandoned, false_or]

theorem Silent.commits_eq {es : List CreationEvent} {id : String} (h : Silent es id)
    (log : List CreationEvent) : commits (es ++ log) id = commits log id := by
  rw [commits, List.count_append, List.count_eq_zero_of_not_mem h.committed, Nat.zero_add]
  rfl

theorem Silent.abandons_eq {es : List CreationEvent} {id : String} (h : Silent es id)
    (log : List CreationEvent) : abandons (es ++ log) id = abandons log id := by
  rw [abandons, List.count_append, List.count_eq_zero_of_not_mem h.abandoned, Nat.zero_add]
  rfl

theorem Silent.fate {es log : List CreationEvent} {id : String} (hs : Silent es id) {h : Handler}
    (hf : Fate log id h) : Fate (es ++ log) id h := by
  unfold Fate at hf ⊢
  simp only [hs.created_iff, hs.commits_eq, hs.abandons_eq]
  exact hf

theorem silent_of_ids {es : List CreationEvent} {id : String} (h : ∀ e ∈ es, e.id ≠ id) :
    Silent es id :=
  ⟨fun _ _ hmem => h _ hmem rfl, fun hmem => h _ hmem rfl, fun hmem => h _ hmem rfl⟩

/-- A call logs nothing about the submissions of others, except that it
answered with one. -/
theorem CreateCall.silent {store store' : MemoryStore} {key hash id : String} {h h' : Handler}
    {es : List CreationEvent} (hcall : CreateCall store key hash id h h' store' es) {y : String}
    (hy : y ≠ id) : Silent es y := by
  cases hcall with
  | create | commit => exact silent_of_ids (by simpa [CreationEvent.id] using Ne.symm hy)
  | abandon =>
    split
    · exact silent_of_ids (by simpa [CreationEvent.id] using Ne.symm hy)
    · exact silent_of_ids (by simp)
  | release => exact ⟨by simp, by simp, by simp⟩
  | _ => exact silent_of_ids (by simp)

structure CreationInv {σ : Type} (fp : CreateRequest → String) (s : CreationState σ) : Prop where
  distinct : ∀ (i j : Nat) (c c' : Creator), s.creators[i]? = some c →
    s.creators[j]? = some c' → c.id = c'.id → i = j
  creates : ∀ c ∈ s.creators, Creates c.req.idempotencyKey (fp c.req) c.id c.handler
  fate : ∀ c ∈ s.creators, Fate s.log c.id c.handler
  known : ∀ id, ¬ Silent s.log id → ∃ c ∈ s.creators, c.id = id
  own : ∀ c ∈ s.creators, ∀ key hash, .created key hash c.id ∈ s.log →
    key = c.req.idempotencyKey ∧ hash = fp c.req
  stored : ∀ id, (s.world.store.status id).isSome ↔ Created s.log id ∧ .abandoned id ∉ s.log
  accepted : ∀ c ∈ s.creators, c.handler.stage.holder = some c.id →
    s.world.store.status c.id = some .accepted
  keys : ∀ key hash id, key ≠ "" → Live s.log key hash id →
    s.world.store.idempotency.lookup key = some id ∧ s.world.store.idemHash.lookup key = some hash

section Steps

variable {σ : Type} {fp : CreateRequest → String} {s : CreationState σ}

/-- The creators after one of them has made a call: the caller, and those
of other submissions. -/
theorem CreationInv.mem_set (inv : CreationInv fp s) {i : Nat} {c : Creator}
    (hi : s.creators[i]? = some c) {h' : Handler} {c' : Creator}
    (hc' : c' ∈ s.creators.set i { c with handler := h' }) :
    c' = { c with handler := h' } ∨ (c' ∈ s.creators ∧ c'.id ≠ c.id) := by
  obtain ⟨j, hj⟩ := List.mem_iff_getElem?.mp hc'
  rcases getElem?_set_cases hj with ⟨-, h⟩ | ⟨hne, h⟩
  · exact .inl h
  · exact .inr ⟨List.mem_of_getElem? h, fun hid => hne (inv.distinct j i c' c h hi hid)⟩

theorem CreationInv.distinct_set (inv : CreationInv fp s) {i : Nat} {c : Creator}
    (hi : s.creators[i]? = some c) (h' : Handler) (j k : Nat) (a b : Creator)
    (hj : (s.creators.set i { c with handler := h' })[j]? = some a)
    (hk : (s.creators.set i { c with handler := h' })[k]? = some b) (hid : a.id = b.id) :
    j = k := by
  have old : ∀ {l : Nat} {x : Creator},
      (s.creators.set i { c with handler := h' })[l]? = some x →
      ∃ y, s.creators[l]? = some y ∧ y.id = x.id := by
    intro l x hl
    rcases getElem?_set_cases hl with ⟨rfl, rfl⟩ | ⟨-, h⟩
    · exact ⟨c, hi, rfl⟩
    · exact ⟨x, h, rfl⟩
  obtain ⟨a', ha', haid⟩ := old hj
  obtain ⟨b', hb', hbid⟩ := old hk
  exact inv.distinct j k a' b' ha' hb' (haid.trans (hid.trans hbid.symm))

/-- A submission that is held by its creator has not been abandoned, and
none of its jobs was committed. -/
theorem fate_of_holder {log : List CreationEvent} {key hash id : String} {h : Handler}
    (hcreates : Creates key hash id h) (hfate : Fate log id h) (hh : h.stage.holder = some id) :
    Created log id ∧ commits log id = 0 ∧ abandons log id = 0 := by
  cases h with
  | createCommit => exact hfate
  | createAbandon => exact hfate
  | createReserve => cases hh
  | createPut => cases hh
  | createRelease => cases hh
  | answered => cases hh
  | _ => exact hcreates.elim

theorem Fate.cases {log : List CreationEvent} {key hash id : String} {h : Handler}
    (hf : Fate log id h) (hcreates : Creates key hash id h) :
    (¬ Created log id ∧ commits log id = 0 ∧ abandons log id = 0) ∨
    (Created log id ∧ commits log id = 0 ∧ abandons log id = 0) ∨
    (Created log id ∧ commits log id = 1 ∧ abandons log id = 0) ∨
    (Created log id ∧ commits log id = 0 ∧ abandons log id = 1) := by
  cases h with
  | createReserve => exact .inl hf
  | createPut => exact .inl hf
  | createCommit => exact .inr (.inl hf)
  | createAbandon => exact .inr (.inl hf)
  | createRelease => exact hf.imp_right .inr
  | answered => exact hf.imp_right .inr
  | _ => exact hcreates.elim

/-- Neither two commits, nor two abandonments, nor both. -/
theorem Fate.at_most_once {log : List CreationEvent} {key hash id : String} {h : Handler}
    (hf : Fate log id h) (hcreates : Creates key hash id h) :
    commits log id + abandons log id ≤ 1 := by
  rcases hf.cases hcreates with h | h | h | h <;> rw [h.2.1, h.2.2] <;> decide

/-- A handler that is done has committed its submission or abandoned it. -/
theorem Fate.once {log : List CreationEvent} {id : String} {answer : Response}
    (hf : Fate log id (.answered answer)) (hc : Created log id) :
    commits log id + abandons log id = 1 := by
  rcases hf with hf | hf | hf
  · exact absurd hc hf.1
  · rw [hf.2.1, hf.2.2]
  · rw [hf.2.1, hf.2.2]

theorem not_mem_of_abandons {log : List CreationEvent} {id : String} (h : abandons log id = 0) :
    .abandoned id ∉ log :=
  List.count_eq_zero.mp h

section Call

variable {store store' : MemoryStore} {key hash id : String} {h h' : Handler}
  {es log : List CreationEvent}

/-- A call writes no submission but its own. -/
theorem CreateCall.status_ne (hcall : CreateCall store key hash id h h' store' es) {y : String}
    (hy : y ≠ id) : store'.status y = store.status y := by
  cases hcall with
  | create hsub =>
    rw [MemoryStore.status_bindSubmission, if_neg (hsub ▸ hy)]
  | abandon => rw [MemoryStore.status_abandonSubmission, if_neg (fun hc => hy hc.1)]
  | _ => rfl

/-- A call that ends a hold leaves the submission as it was created, or
abandoned; one that keeps it leaves it accepted. -/
theorem CreateCall.status_holder (hcall : CreateCall store key hash id h h' store' es)
    (hacc : h.stage.holder = some id → store.status id = some .accepted)
    (hh : h'.stage.holder = some id) : store'.status id = some .accepted := by
  cases hcall with
  | create hsub hstatus =>
    rw [MemoryStore.status_bindSubmission, if_pos hsub.symm, hstatus]
  | commitFailed hsub => exact hacc (congrArg some hsub)
  | _ => cases hh

theorem silent_accepted (answer : Response) (id : String) :
    Silent ((acceptedID answer).toList.map .accepted) id :=
  ⟨by simp, by simp, by simp⟩

theorem Fate.finished {tok : Nat} {answer : Response}
    (hf : Fate log id (.createRelease tok answer)) : Fate log id (.answered answer) :=
  hf

/-- The log keeps up with the handler. -/
theorem CreateCall.fate (hcall : CreateCall store key hash id h h' store' es)
    (hacc : h.stage.holder = some id → store.status id = some .accepted)
    (hf : Fate log id h) : Fate (es ++ log) id h' := by
  cases hcall with
  | refused => exact .inl hf
  | reserved => exact hf
  | conflict => exact .inl hf
  | replay => exact .inl hf
  | create =>
    obtain ⟨-, hcommits, habandons⟩ := hf
    refine ⟨⟨key, hash, by simp⟩, ?_, ?_⟩
    · simpa [commits] using hcommits
    · simpa [abandons] using habandons
  | commit =>
    obtain ⟨⟨k, hk, hcreated⟩, hcommits, habandons⟩ := hf
    refine .inr (.inl ⟨⟨k, hk, by simp [hcreated]⟩, ?_, ?_⟩)
    · rw [commits] at hcommits ⊢
      simp [hcommits]
    · rw [abandons] at habandons ⊢
      simp [habandons]
  | commitFailed => exact hf
  | abandon =>
    rw [MemoryStore.abandonSubmission_isOk key (hacc rfl), if_pos rfl]
    obtain ⟨⟨k, hk, hcreated⟩, hcommits, habandons⟩ := hf
    refine .inr (.inr ⟨⟨k, hk, by simp [hcreated]⟩, ?_, ?_⟩)
    · rw [commits] at hcommits ⊢
      simp [hcommits]
    · rw [abandons] at habandons ⊢
      simp [habandons]
  | release => exact (silent_accepted _ id).fate hf.finished

/-- What a call creates it creates under its own key and fingerprint. -/
theorem CreateCall.created (hcall : CreateCall store key hash id h h' store' es) {k f y : String}
    (hmem : .created k f y ∈ es) : k = key ∧ f = hash := by
  cases hcall with
  | create =>
    simp only [List.mem_singleton, CreationEvent.created.injEq] at hmem
    exact ⟨hmem.1, hmem.2.1⟩
  | abandon =>
    split at hmem
    · simp at hmem
    · simp at hmem
  | _ => simp at hmem

/-- A submission is stored from its creation to its abandonment. -/
theorem CreateCall.stored (hcall : CreateCall store key hash id h h' store' es)
    (hacc : h.stage.holder = some id → store.status id = some .accepted) (hf : Fate log id h)
    (hst : (store.status id).isSome ↔ Created log id ∧ .abandoned id ∉ log) :
    (store'.status id).isSome ↔ Created (es ++ log) id ∧ .abandoned id ∉ es ++ log := by
  cases hcall with
  | create hsub hstatus =>
    rw [MemoryStore.status_bindSubmission, if_pos hsub.symm]
    refine ⟨fun _ => ⟨⟨key, hash, by simp⟩, ?_⟩, fun _ => rfl⟩
    simpa using not_mem_of_abandons hf.2.2
  | commit =>
    have hcreated : Created ([.accepted id, .committed id] ++ log) id ↔ Created log id := by
      simp [Created]
    have habandoned : .abandoned id ∈ [.accepted id, .committed id] ++ log ↔
        .abandoned id ∈ log := by
      simp
    rw [hcreated, habandoned]
    exact hst
  | abandon =>
    rw [MemoryStore.abandonSubmission_isOk key (hacc rfl), if_pos rfl,
      MemoryStore.status_abandonSubmission, if_pos ⟨rfl, hacc rfl⟩]
    simp
  | release =>
    rw [(silent_accepted _ id).created_iff, (silent_accepted _ id).abandoned_iff]
    exact hst
  | _ => exact hst

end Call

theorem live_append {es log : List CreationEvent} {key hash id : String}
    (h : Live (es ++ log) key hash id) (hnew : .created key hash id ∉ es) :
    Live log key hash id :=
  ⟨(List.mem_append.mp h.1).resolve_left hnew, fun hab => h.2 (List.mem_append_right _ hab)⟩

/-- A live submission keeps its key through every call. -/
theorem CreationInv.keys_call (inv : CreationInv fp s) {c : Creator} (hc : c ∈ s.creators)
    {h' : Handler} {store' : MemoryStore} {es : List CreationEvent}
    (hcall : CreateCall s.world.store c.req.idempotencyKey (fp c.req) c.id c.handler h' store' es)
    {key hash id : String} (hkey : key ≠ "") (hlive : Live (es ++ s.log) key hash id) :
    store'.idempotency.lookup key = some id ∧ store'.idemHash.lookup key = some hash := by
  obtain ⟨req, cid, handler⟩ := c
  have hacc := inv.accepted _ hc
  dsimp only at hcall hacc
  cases hcall with
  | create hsub hstatus hfree =>
    rename_i sub
    obtain ⟨hidem, hhash⟩ := s.world.store.lookup_bindSubmission req.idempotencyKey (fp req) sub key
    rw [hidem, hhash]
    by_cases hsame : req.idempotencyKey ≠ "" ∧ key = req.idempotencyKey
    · rw [if_pos hsame, if_pos hsame]
      rcases List.mem_append.mp hlive.1 with hnew | hold
      · simp only [List.mem_singleton, CreationEvent.created.injEq] at hnew
        exact ⟨congrArg some (hsub.trans hnew.2.2.symm), congrArg some hnew.2.1.symm⟩
      · -- a live submission of this key is stored, so the key was not free
        have hab : .abandoned id ∉ s.log := fun h => hlive.2 (List.mem_append_right _ h)
        have hlookup := (inv.keys key hash id hkey ⟨hold, hab⟩).1
        have hstored := (inv.stored id).mpr ⟨⟨key, hash, hold⟩, hab⟩
        have hnone := hfree hsame.1
        rw [← hsame.2, MemoryStore.bound, hlookup, Option.bind_some] at hnone
        rw [MemoryStore.status, hnone] at hstored
        cases hstored
    · rw [if_neg hsame, if_neg hsame]
      refine inv.keys key hash id hkey (live_append hlive ?_)
      simp only [List.mem_singleton, CreationEvent.created.injEq, not_and]
      intro hk _ _
      exact hsame ⟨hk ▸ hkey, hk⟩
  | abandon =>
    rw [MemoryStore.abandonSubmission_isOk _ (hacc rfl), if_pos rfl] at hlive
    have hne : id ≠ cid := fun h => hlive.2 (by simp [h])
    have hold := inv.keys key hash id hkey (live_append hlive (by simp))
    obtain ⟨hidem, hhash⟩ :=
      s.world.store.lookup_abandonSubmission req.idempotencyKey hne hold.1
    rw [hidem, hhash]
    exact hold
  | _ => exact inv.keys key hash id hkey (live_append hlive (by simp))

/-- **A call keeps the invariant.** -/
theorem CreationInv.call (inv : CreationInv fp s) {i : Nat} {c : Creator}
    (hi : s.creators[i]? = some c) {h' : Handler} {p : σ} {w : World} {es : List CreationEvent}
    (hcall : CreateCall s.world.store c.req.idempotencyKey (fp c.req) c.id c.handler h'
      w.store es) :
    CreationInv fp
      { pool := p, world := w, creators := s.creators.set i { c with handler := h' }
        log := es ++ s.log } := by
  have hc : c ∈ s.creators := List.mem_of_getElem? hi
  have hacc := inv.accepted c hc
  have hself : { c with handler := h' } ∈ s.creators.set i { c with handler := h' } :=
    List.mem_iff_getElem?.mpr ⟨i, List.getElem?_set_self (List.getElem?_eq_some_iff.mp hi).1⟩
  refine
    { distinct := inv.distinct_set hi h'
      creates := fun c' hc' => ?_
      fate := fun c' hc' => ?_
      known := fun id hid => ?_
      own := fun c' hc' key hash hmem => ?_
      stored := fun id => ?_
      accepted := fun c' hc' hh => ?_
      keys := fun key hash id hkey hlive => inv.keys_call hc hcall hkey hlive }
  · rcases inv.mem_set hi hc' with rfl | ⟨hold, -⟩
    · exact hcall.creates (inv.creates c hc)
    · exact inv.creates c' hold
  · rcases inv.mem_set hi hc' with rfl | ⟨hold, hne⟩
    · exact hcall.fate hacc (inv.fate c hc)
    · exact (hcall.silent hne).fate (inv.fate c' hold)
  · by_cases hne : id = c.id
    · exact ⟨_, hself, hne.symm⟩
    · have hold : ¬ Silent s.log id := by
        intro hsilent
        have hes := hcall.silent hne
        refine hid ⟨fun k hk hmem => ?_, fun hmem => ?_, fun hmem => ?_⟩
        · exact (List.mem_append.mp hmem).elim (hes.created k hk) (hsilent.created k hk)
        · exact (List.mem_append.mp hmem).elim hes.committed hsilent.committed
        · exact (List.mem_append.mp hmem).elim hes.abandoned hsilent.abandoned
      obtain ⟨c', hc', hid'⟩ := inv.known id hold
      rcases mem_set_of_mem hi hc' { c with handler := h' } with rfl | hmem
      · exact absurd hid'.symm hne
      · exact ⟨c', hmem, hid'⟩
  · rcases inv.mem_set hi hc' with rfl | ⟨hold, hne⟩
    · rcases List.mem_append.mp hmem with hnew | hold
      · exact hcall.created hnew
      · exact inv.own c hc key hash hold
    · exact inv.own c' hold key hash
        ((List.mem_append.mp hmem).resolve_left ((hcall.silent hne).created key hash))
  · by_cases hne : id = c.id
    · subst hne
      exact hcall.stored hacc (inv.fate c hc) (inv.stored c.id)
    · have hes := hcall.silent hne
      rw [hcall.status_ne hne, hes.created_iff, hes.abandoned_iff]
      exact inv.stored id
  · rcases inv.mem_set hi hc' with rfl | ⟨hold, hne⟩
    · exact hcall.status_holder hacc hh
    · rw [hcall.status_ne hne]
      exact inv.accepted c' hold hh

/-- A new request, under an id that nobody has drawn. -/
theorem CreationInv.request (inv : CreationInv fp s) {c : Creator}
    (hnew : ∀ c' ∈ s.creators, c'.id ≠ c.id) {sub : Submission}
    (hh : c.handler = .createReserve c.req.idempotencyKey (fp c.req) sub) (hid : sub.id = c.id)
    (hstatus : sub.status = .accepted) :
    CreationInv fp { s with creators := s.creators ++ [c] } := by
  have hsilent : Silent s.log c.id := by
    by_contra hno
    obtain ⟨c', hc', hid'⟩ := inv.known c.id hno
    exact hnew c' hc' hid'
  have hcases : ∀ c' ∈ s.creators ++ [c], c' ∈ s.creators ∨ c' = c := fun c' hc' =>
    (List.mem_append.mp hc').imp_right List.mem_singleton.mp
  refine
    { distinct := fun i j a b hi hj hab => ?_
      creates := fun c' hc' => ?_
      fate := fun c' hc' => ?_
      known := fun id hno => ?_
      own := fun c' hc' key hash hmem => ?_
      stored := inv.stored
      accepted := fun c' hc' hholder => ?_
      keys := inv.keys }
  · -- the new creator stands at the end, with an id of its own
    rw [List.getElem?_append] at hi hj
    split at hi <;> split at hj
    · exact inv.distinct i j a b hi hj hab
    · have hb := List.mem_singleton.mp (List.mem_of_getElem? hj)
      exact absurd (hab.trans (congrArg Creator.id hb)) (hnew a (List.mem_of_getElem? hi))
    · have ha := List.mem_singleton.mp (List.mem_of_getElem? hi)
      exact absurd (hab.symm.trans (congrArg Creator.id ha)) (hnew b (List.mem_of_getElem? hj))
    · have hi' := (List.getElem?_eq_some_iff.mp hi).1
      have hj' := (List.getElem?_eq_some_iff.mp hj).1
      simp only [List.length_singleton] at hi' hj'
      omega
  · rcases hcases c' hc' with hold | rfl
    · exact inv.creates c' hold
    · rw [hh]
      exact ⟨rfl, rfl, hid, hstatus⟩
  · rcases hcases c' hc' with hold | rfl
    · exact inv.fate c' hold
    · rw [hh]
      exact ⟨fun ⟨key, hash, hmem⟩ => hsilent.created key hash hmem,
        List.count_eq_zero.mpr hsilent.committed, List.count_eq_zero.mpr hsilent.abandoned⟩
  · obtain ⟨c', hc', hid'⟩ := inv.known id hno
    exact ⟨c', List.mem_append_left _ hc', hid'⟩
  · rcases hcases c' hc' with hold | rfl
    · exact inv.own c' hold key hash hmem
    · exact absurd hmem (hsilent.created key hash)
  · rcases hcases c' hc' with hold | rfl
    · exact inv.accepted c' hold hholder
    · rw [hh] at hholder
      cases hholder

/-- What was committed is created and not abandoned. -/
theorem CreationInv.of_committed (inv : CreationInv fp s) {id : String}
    (hmem : .committed id ∈ s.log) :
    Created s.log id ∧ .abandoned id ∉ s.log ∧
      ∀ c ∈ s.creators, c.id = id → c.handler.stage.holder ≠ some id := by
  obtain ⟨c, hc, rfl⟩ := inv.known id fun h => h.committed hmem
  have hpos : commits s.log c.id ≠ 0 := fun h => List.count_eq_zero.mp h hmem
  obtain ⟨hcreated, hab⟩ : Created s.log c.id ∧ abandons s.log c.id = 0 := by
    rcases (inv.fate c hc).cases (inv.creates c hc) with h | h | h | h
    · exact absurd h.2.1 hpos
    · exact absurd h.2.1 hpos
    · exact ⟨h.1, h.2.2⟩
    · exact absurd h.2.1 hpos
  refine ⟨hcreated, not_mem_of_abandons hab, fun c' hc' hid hholder => hpos ?_⟩
  have := fate_of_holder (inv.creates c' hc') (inv.fate c' hc') (hid ▸ hholder)
  rw [← hid]
  exact this.2.1

/-- A worker rewrites a submission whose job was committed. -/
theorem CreationInv.process (inv : CreationInv fp s) {sub : Submission}
    (hmem : .committed sub.id ∈ s.log) :
    CreationInv fp
      { s with world := { s.world with store := s.world.store.putSubmission sub } } := by
  obtain ⟨hcreated, hab, hfree⟩ := inv.of_committed hmem
  refine { inv with stored := fun id => ?_, accepted := fun c hc hholder => ?_ }
  · rw [MemoryStore.status_putSubmission]
    by_cases hid : id = sub.id
    · subst hid
      rw [if_pos rfl]
      exact ⟨fun _ => ⟨hcreated, hab⟩, fun _ => rfl⟩
    · rw [if_neg hid]
      exact inv.stored id
  · rw [MemoryStore.status_putSubmission, if_neg (fun hid => hfree c hc hid (hid ▸ hholder))]
    exact inv.accepted c hc hholder

end Steps

/-! ## §2 Idempotency keys in every interleaving -/

section Given

variable [GoStd] {σ : Type} {marshal : IdempotencyPayload → Option (List UInt8)}
  {d : Admission σ} {s s' : CreationState σ}

theorem CreationInv.init (h : (creationSys marshal d).init s) :
    CreationInv (fingerprint marshal) s := by
  obtain ⟨hstore, hcreators, hlog⟩ := h
  have hsilent : ∀ id, Silent s.log id := fun id => ⟨by simp [hlog], by simp [hlog], by simp [hlog]⟩
  refine
    { distinct := by simp [hcreators]
      creates := by simp [hcreators]
      fate := by simp [hcreators]
      known := fun id hno => absurd (hsilent id) hno
      own := by simp [hcreators]
      stored := fun id => ?_
      accepted := by simp [hcreators]
      keys := fun key hash id _ hlive => absurd hlive.1 ((hsilent id).created key hash) }
  rw [hstore]
  simp [MemoryStore.status, Created, hlog]

/-- The call of a creator. -/
theorem creationStep_call {i : Nat} {ctxErr : Option String} {now : Time}
    (inv : CreationInv (fingerprint marshal) s)
    (h : creationStep marshal d (.call i ctxErr now) s = some s') :
    ∃ c h' es, s.creators[i]? = some c ∧
      s'.creators = s.creators.set i { c with handler := h' } ∧ s'.log = es ++ s.log ∧
      CreateCall s.world.store c.req.idempotencyKey (fingerprint marshal c.req) c.id c.handler h'
        s'.world.store es := by
  simp only [creationStep] at h
  split at h
  · cases h
  · rename_i c hi
    obtain ⟨⟨p, w, h'⟩, hstep, rfl⟩ := Option.map_eq_some_iff.mp h
    have hcall := Creates.call rfl (inv.creates c (List.mem_of_getElem? hi)) hstep
    exact ⟨c, h', _, hi, rfl, rfl, hcall⟩

theorem CreationInv.step {a : CreationAction σ} (inv : CreationInv (fingerprint marshal) s)
    (h : creationStep marshal d a s = some s') : CreationInv (fingerprint marshal) s' := by
  cases a with
  | request req id now =>
    simp only [creationStep] at h
    split at h
    · cases h
    · rename_i hnew
      split at h <;> cases h
      · exact inv
      · refine inv.request ?_ rfl rfl rfl
        simpa using hnew
  | call i ctxErr now =>
    obtain ⟨c, h', es, hi, hcreators, hlog, hcall⟩ := creationStep_call inv h
    obtain ⟨pool, world, creators, log⟩ := s'
    simp only at hcreators hlog hcall
    subst hcreators hlog
    exact inv.call hi hcall
  | dispatcher p =>
    cases h
    exact { inv with }
  | jobs jobs =>
    cases h
    exact { inv with }
  | process sub =>
    simp only [creationStep] at h
    split at h
    · cases h
      exact inv.process ‹_›
    · cases h

theorem creation_inv {ok : CreationState σ → CreationAction σ → Prop}
    (h : (creationSys marshal d).Reach ok s) : CreationInv (fingerprint marshal) s :=
  h.invariant (fun _ h0 => .init h0) fun _ _ _ inv _ hstep => inv.step hstep

/-- What a call of another request under the key of a live submission
does, with the fingerprint `fp`: `Reserve` turns it away or admits it,
and a request that is admitted is answered with that submission or with
a conflict. -/
inductive Served (fp hash id : String) : Handler → Handler → Prop
  | turnedAway {key : String} {sub : Submission} {e : DispatchError} :
      Served fp hash id (.createReserve key fp sub)
        (.answered (dispatchProblem "worker pool at capacity; retry later" e))
  | admitted {key : String} {sub : Submission} {tok : Nat} :
      Served fp hash id (.createReserve key fp sub) (.createPut tok key fp sub)
  | same {key : String} {sub existing : Submission} {tok : Nat} (hfp : fp = hash)
      (hid : existing.id = id) :
      Served fp hash id (.createPut tok key fp sub)
        (.createRelease tok (writeAccepted (location id) existing))
  | conflict {key : String} {sub : Submission} {tok : Nat} (hfp : fp ≠ hash) :
      Served fp hash id (.createPut tok key fp sub)
        (.createRelease tok (writeProblem 409 "idempotency_conflict"
          "Idempotency-Key reused with a different request body"))
  | answered {tok : Nat} {answer : Response} :
      Served fp hash id (.createRelease tok answer) (.answered answer)

omit [GoStd] in
/-- A live submission of a key is the one the key is bound to. -/
theorem CreationInv.bound {fp : CreateRequest → String} (inv : CreationInv fp s)
    {key hash id : String} (hkey : key ≠ "") (hlive : Live s.log key hash id) :
    ∃ existing, s.world.store.bound key = some existing ∧ existing.val.id = id := by
  have hstored := (inv.stored id).mpr ⟨⟨key, hash, hlive.1⟩, hlive.2⟩
  rw [MemoryStore.status, Option.isSome_map] at hstored
  obtain ⟨row, hrow⟩ := Option.isSome_iff_exists.mp hstored
  refine ⟨row, ?_, SubmissionTable.id_of_get? hrow⟩
  rw [MemoryStore.bound, (inv.keys key hash id hkey hlive).1, Option.bind_some, hrow]

omit [GoStd] in
/-- Two live submissions of a key are one. -/
theorem CreationInv.live_unique {fp : CreateRequest → String} (inv : CreationInv fp s)
    {key hash hash' x y : String} (hkey : key ≠ "") (hx : Live s.log key hash x)
    (hy : Live s.log key hash' y) : x = y := by
  have hlookup := (inv.keys key hash x hkey hx).1
  rw [(inv.keys key hash' y hkey hy).1] at hlookup
  exact (Option.some.inj hlookup).symm

omit [GoStd] in
/-- The creator of another submission holds nothing under the key. -/
theorem CreationInv.no_holder {fp : CreateRequest → String} (inv : CreationInv fp s) {c : Creator}
    (hc : c ∈ s.creators) {hash id : String} (hkey : c.req.idempotencyKey ≠ "")
    (hlive : Live s.log c.req.idempotencyKey hash id) (hid : c.id ≠ id) :
    c.handler.stage.holder ≠ some c.id := by
  intro hholder
  obtain ⟨⟨k, f, hmem⟩, -, hab⟩ := fate_of_holder (inv.creates c hc) (inv.fate c hc) hholder
  obtain ⟨rfl, rfl⟩ := inv.own c hc k f hmem
  exact hid (inv.live_unique hkey ⟨hmem, not_mem_of_abandons hab⟩ hlive)

omit [GoStd] in
theorem CreationInv.served {fp : CreateRequest → String} (hfp : ∀ req, fp req ≠ "")
    (inv : CreationInv fp s) {c : Creator} (hc : c ∈ s.creators) {hash id : String}
    (hkey : c.req.idempotencyKey ≠ "") (hlive : Live s.log c.req.idempotencyKey hash id)
    (hid : c.id ≠ id) {h' : Handler} {store' : MemoryStore} {es : List CreationEvent}
    (hcall : CreateCall s.world.store c.req.idempotencyKey (fp c.req) c.id c.handler h' store' es) :
    store' = s.world.store ∧ Served (fp c.req) hash id c.handler h' := by
  obtain ⟨existing, hbound, hexisting⟩ := inv.bound hkey hlive
  have hlookup := (inv.keys _ hash id hkey hlive).2
  have hnone := inv.no_holder hc hkey hlive hid
  have hhash : hash ≠ "" := by
    obtain ⟨c', hc', rfl⟩ := inv.known id fun h => h.created _ _ hlive.1
    obtain ⟨-, rfl⟩ := inv.own c' hc' _ _ hlive.1
    exact hfp c'.req
  obtain ⟨req, cid, handler⟩ := c
  dsimp only at hcall hkey hbound hlookup hnone ⊢
  cases hcall with
  | refused => exact ⟨rfl, .turnedAway⟩
  | reserved => exact ⟨rfl, .admitted⟩
  | conflict _ _ hdiffer =>
    refine ⟨rfl, .conflict fun heq => hdiffer.2.2 ?_⟩
    rw [hlookup, heq]
    rfl
  | replay _ hb hagree =>
    rw [hbound, Option.some.injEq] at hb
    subst hb
    rw [Differs, hlookup, Option.getD_some] at hagree
    have heq : fp req = hash := by
      by_contra hne
      exact hagree ⟨hhash, hfp req, Ne.symm hne⟩
    rw [hexisting]
    exact ⟨rfl, .same heq hexisting⟩
  | create _ _ hfree =>
    rw [hfree hkey] at hbound
    cases hbound
  | commit hsub | commitFailed hsub => exact absurd (congrArg some hsub) hnone
  | abandon => exact absurd rfl hnone
  | release => exact ⟨rfl, .answered⟩

/-- **Creation is idempotent in every interleaving.** Whatever the keys:
of the submissions created under a key at most one is stored; while it
is live, another request under the key that is admitted gets that
submission if the fingerprints agree and a conflict if they differ, and
none of its calls changes the store; and a created submission gets one
job committed or is abandoned once, not both. -/
theorem idempotent_creation (hsha : ∀ m, GoStd.sha256 m ≠ [])
    (h : (creationSys marshal d).Reach (fun _ _ => True) s) :
    (∀ key hash hash' x y, key ≠ "" → .created key hash x ∈ s.log → .created key hash' y ∈ s.log →
      (s.world.store.getSubmission x).isSome → (s.world.store.getSubmission y).isSome → x = y) ∧
    (∀ i c hash id ctxErr now s', s.creators[i]? = some c → c.req.idempotencyKey ≠ "" →
      Live s.log c.req.idempotencyKey hash id → c.id ≠ id →
      creationStep marshal d (.call i ctxErr now) s = some s' →
      s'.world.store = s.world.store ∧
        ∃ h', s'.creators[i]? = some { c with handler := h' } ∧
          Served (fingerprint marshal c.req) hash id c.handler h') ∧
    (∀ id, Created s.log id → ∃ c ∈ s.creators, c.id = id ∧
      commits s.log id + abandons s.log id ≤ 1 ∧
      ((∃ answer, c.handler = .answered answer) →
        commits s.log id + abandons s.log id = 1)) := by
  have inv := creation_inv h
  refine ⟨fun key hash hash' x y hkey hx hy hsx hsy => ?_,
    fun i c hash id ctxErr now s' hi hkey hlive hid hstep => ?_, fun id hcreated => ?_⟩
  · have hstored : ∀ {z : String}, (s.world.store.getSubmission z).isSome →
        .abandoned z ∉ s.log := by
      intro z hz
      rw [MemoryStore.getSubmission, Option.isSome_map] at hz
      exact ((inv.stored z).mp (by rwa [MemoryStore.status, Option.isSome_map])).2
    exact inv.live_unique hkey ⟨hx, hstored hsx⟩ ⟨hy, hstored hsy⟩
  · obtain ⟨c', h', es, hi', hcreators, -, hcall⟩ := creationStep_call inv hstep
    rw [hi, Option.some.injEq] at hi'
    subst hi'
    obtain ⟨hstore, hserved⟩ := inv.served (fingerprint_ne_empty hsha marshal)
      (List.mem_of_getElem? hi) hkey hlive hid hcall
    refine ⟨hstore, h', ?_, hserved⟩
    rw [hcreators, List.getElem?_set_self (List.getElem?_eq_some_iff.mp hi).1]
  · obtain ⟨key, hash, hmem⟩ := hcreated
    obtain ⟨c, hc, rfl⟩ := inv.known id fun h => h.created key hash hmem
    have hfate := inv.fate c hc
    refine ⟨c, hc, rfl, hfate.at_most_once (inv.creates c hc), ?_⟩
    rintro ⟨answer, hanswer⟩
    rw [hanswer] at hfate
    exact hfate.once ⟨key, hash, hmem⟩

/-! ## §3 Answers that are taken back -/

/-- The commit of a submission does not fail once a 202 was answered with
it, and no 202 is answered with a submission whose commit has failed. -/
def firm (d : Admission σ) (s : CreationState σ) : CreationAction σ → Bool
  | .call i _ now =>
    match s.creators[i]?.map Creator.handler with
    | some (.createCommit tok _ sub) =>
      decide (.accepted sub.id ∉ s.log) || (d.commit now tok sub.id s.pool s.world).1.isOk
    | some (.createRelease _ answer) =>
      match acceptedID answer with
      | none => true
      | some id => s.creators.all fun c => c.handler.stage ≠ .abandoning id
    | _ => true
  | _ => true

/-- The later event does not take the earlier answer back. -/
def Honours (later earlier : CreationEvent) : Prop :=
  ∀ id, later = .abandoned id → earlier ≠ .accepted id

/-- The invariant of firm runs. -/
structure FirmInv (s : CreationState σ) : Prop where
  honours : s.log.Pairwise Honours
  unanswered : ∀ c ∈ s.creators, c.handler.stage = .abandoning c.id → .accepted c.id ∉ s.log

omit [GoStd] in
theorem honours_of_ne {later earlier : CreationEvent} (h : ∀ id, later ≠ .abandoned id) :
    Honours later earlier :=
  fun id heq => absurd heq (h id)

omit [GoStd] in
/-- A call keeps the log honest if the submission it abandons has not
been answered with. -/
theorem CreateCall.honours {store store' : MemoryStore} {key hash id : String} {h h' : Handler}
    {es log : List CreationEvent} (hcall : CreateCall store key hash id h h' store' es)
    (hlog : log.Pairwise Honours) (hab : h.stage = .abandoning id → .accepted id ∉ log) :
    (es ++ log).Pairwise Honours := by
  cases hcall with
  | create => exact List.pairwise_cons.mpr ⟨fun _ _ => honours_of_ne (by simp), hlog⟩
  | commit =>
    refine List.pairwise_cons.mpr ⟨fun _ _ => honours_of_ne (by simp), ?_⟩
    exact List.pairwise_cons.mpr ⟨fun _ _ => honours_of_ne (by simp), hlog⟩
  | abandon =>
    split
    · refine List.pairwise_cons.mpr ⟨fun e he id' heq hacc => ?_, hlog⟩
      cases heq
      exact hab rfl (hacc ▸ he)
    · exact hlog
  | release =>
    rename_i answer
    cases acceptedID answer with
    | none => exact hlog
    | some id' => exact List.pairwise_cons.mpr ⟨fun _ _ => honours_of_ne (by simp), hlog⟩
  | _ => exact hlog

/-- While the creator of a submission is about to abandon it, no firm
call of anybody answers with it. -/
theorem firm_call_unanswered {i : Nat} {ctxErr : Option String} {now : Time}
    (hfirm : firm d s (.call i ctxErr now) = true)
    {c : Creator} (hi : s.creators[i]? = some c) {h' : Handler} {store' : MemoryStore}
    {es : List CreationEvent}
    (hcall : CreateCall s.world.store c.req.idempotencyKey (fingerprint marshal c.req) c.id
      c.handler h' store' es)
    {c' : Creator} (hc' : c' ∈ s.creators) (hne : c'.id ≠ c.id)
    (hab : c'.handler.stage = .abandoning c'.id) : .accepted c'.id ∉ es := by
  obtain ⟨req, cid, handler⟩ := c
  dsimp only at hcall hne
  cases hcall with
  | create => simp
  | commit => simpa using hne
  | abandon => split <;> simp
  | release =>
    rename_i tok answer
    cases hans : acceptedID answer with
    | none => simp
    | some id' =>
      simp only [firm, hi, Option.map_some, hans, List.all_eq_true, ne_eq, decide_not,
        Bool.not_eq_eq_eq_not, Bool.not_true, decide_eq_false_iff_not] at hfirm
      have hother : c'.id ≠ id' := fun heq => hfirm c' hc' (heq ▸ hab)
      simpa using hother
  | _ => simp

/-- A firm commit that fails is one of a submission nobody has been
answered with. -/
theorem firm_commitFailed {i : Nat} {ctxErr : Option String} {now : Time}
    (hfirm : firm d s (.call i ctxErr now) = true) {c : Creator} (hi : s.creators[i]? = some c)
    {tok tok' : Nat} {key key' id : String} {sub : Submission} {answer : Response}
    (hh : c.handler = .createCommit tok key sub)
    (hstep : creationStep marshal d (.call i ctxErr now) s = some s')
    (hi' : s'.creators[i]? = some { c with handler := .createAbandon tok' key' id answer }) :
    .accepted sub.id ∉ s.log := by
  simp only [firm, hi, Option.map_some, hh, Bool.or_eq_true, decide_eq_true_eq] at hfirm
  refine hfirm.resolve_right fun hok => ?_
  simp only [creationStep, hi] at hstep
  obtain ⟨⟨pool, world, h'⟩, hcall, rfl⟩ := Option.map_eq_some_iff.mp hstep
  rw [hh] at hcall
  cases Handler.step_move hcall with
  | commitFailed key hcommit =>
    rw [hcommit] at hok
    cases hok
  | committed =>
    rw [List.getElem?_set_self (List.getElem?_eq_some_iff.mp hi).1] at hi'
    cases hi'

theorem FirmInv.step {a : CreationAction σ} (inv : CreationInv (fingerprint marshal) s)
    (hinv : FirmInv s) (hfirm : firm d s a = true) (h : creationStep marshal d a s = some s') :
    FirmInv s' := by
  cases a with
  | request req id now =>
    simp only [creationStep] at h
    split at h
    · cases h
    · split at h <;> cases h
      · exact hinv
      · refine ⟨hinv.honours, fun c hc hstage => ?_⟩
        rcases List.mem_append.mp hc with hold | hnew
        · exact hinv.unanswered c hold hstage
        · rw [List.mem_singleton.mp hnew] at hstage
          cases hstage
  | call i ctxErr now =>
    obtain ⟨c, h', es, hi, hcreators, hlog, hcall⟩ := creationStep_call inv h
    have hc : c ∈ s.creators := List.mem_of_getElem? hi
    refine ⟨?_, fun c' hc' hstage => ?_⟩
    · rw [hlog]
      exact hcall.honours hinv.honours (hinv.unanswered c hc)
    · rw [hcreators] at hc'
      rw [hlog]
      rcases inv.mem_set hi hc' with rfl | ⟨hold, hne⟩
      · -- the caller's own commit has just failed
        have hi' : s'.creators[i]? = some { c with handler := h' } := by
          rw [hcreators, List.getElem?_set_self (List.getElem?_eq_some_iff.mp hi).1]
        have hcreates := inv.creates c hc
        clear hcreators hlog hc'
        generalize hhandler : c.handler = handler at hcall hcreates
        generalize s'.world.store = store' at hcall
        cases hcall with
        | commitFailed hsub =>
          have := firm_commitFailed hfirm hi hhandler h hi'
          rw [hsub] at this
          simpa using this
        | _ => cases hstage
      · intro hmem
        rcases List.mem_append.mp hmem with hnew | hold'
        · exact firm_call_unanswered hfirm hi hcall hold hne hstage hnew
        · exact hinv.unanswered c' hold hstage hold'
  | dispatcher p | jobs jobs =>
    cases h
    exact { hinv with }
  | process sub =>
    simp only [creationStep] at h
    split at h
    · cases h
      exact { hinv with }
    · cases h

/-- **In a firm run no answer is taken back**: no submission is abandoned
after a 202 was answered with it. -/
theorem accepted_never_abandoned
    (h : (creationSys marshal d).Reach (fun s a => firm d s a = true) s) :
    s.log.Pairwise Honours := by
  have hboth : CreationInv (fingerprint marshal) s ∧ FirmInv s := by
    refine h.invariant (I := fun s => CreationInv (fingerprint marshal) s ∧ FirmInv s)
      (fun s₀ h0 => ⟨.init h0, ?_⟩) fun _ _ _ inv hok hstep =>
        ⟨inv.1.step hstep, inv.2.step inv.1 hok hstep⟩
    exact ⟨by simp [h0.2.2], by simp [h0.2.1]⟩
  exact hboth.2.honours

end Given

/-! ## §4 Two requests under one key -/

/-- A library with a digest that is never empty. -/
@[reducible] def GoStd.salted : GoStd :=
  { GoStd.plain with sha256 := fun m => 0 :: m }

/-- A local pool that admits `n` jobs, on a new store. -/
def creationStart (n : Nat) : CreationState LocalPool where
  pool :=
    { maxInflight := n, workers := n, unlimited := false, closed := false, sem := 0
      jobs := [], running := [], tokens := [] }
  world := {}
  creators := []
  log := []

/-- What is marshalled of a request in these runs. -/
def marshalPolicy (p : IdempotencyPayload) : Option (List UInt8) :=
  some (bytesOf (p.policyRef.getD ""))

def keyedRequest : CreateRequest :=
  { artifact := { purl := some "pkg:npm/a@1" }, idempotencyKey := "k" }

/-- The system of these runs. -/
def keyedSys : Sys (CreationState LocalPool) (CreationAction LocalPool) :=
  @creationSys GoStd.salted LocalPool marshalPolicy localAdmission

theorem creationStart_reach (n : Nat)
    {ok : CreationState LocalPool → CreationAction LocalPool → Prop} :
    keyedSys.Reach ok (creationStart n) :=
  Sys.Reach.init ⟨rfl, rfl, rfl⟩

/-- The second request has been admitted while the first one is live. -/
theorem idempotent_creation_replayed :
    ∃ s s' c, keyedSys.Reach (fun _ _ => True) s ∧ s.creators[1]? = some c ∧
      c.id = "sub_b" ∧ Live s.log "k" "00" "sub_a" ∧
      keyedSys.step (.call 1 none 0) s = some s' ∧ s'.world.store = s.world.store := by
  let _ := GoStd.salted
  let acts : List (CreationAction LocalPool) :=
    [.request keyedRequest "sub_a" 0, .request keyedRequest "sub_b" 0,
     .call 0 none 0, .call 1 none 0, .call 0 none 0]
  have hrun : (keyedSys.run (fun _ _ => True) acts (creationStart 2)).map (fun s =>
      (s.creators[1]?.map (fun c => (c.id, c.req.idempotencyKey)), s.log,
        (keyedSys.step (.call 1 none 0) s).isSome)) =
      some (some ("sub_b", "k"), [.created "k" "00" "sub_a"], true) := by
    decide +kernel
  obtain ⟨s, hreach, heq⟩ := (creationStart_reach 2).of_run_map hrun
  simp only [Prod.mk.injEq, Option.map_eq_some_iff, Option.isSome_iff_exists] at heq
  obtain ⟨⟨c, hc, hid, hkey⟩, hlog, s', hs'⟩ := heq
  have hlive : Live s.log "k" "00" "sub_a" := by
    rw [hlog]
    exact ⟨by simp, by simp⟩
  have hserved := (idempotent_creation (d := localAdmission) (fun m => by simp) hreach).2.1
    1 c "00" "sub_a" none 0 s' hc (by rw [hkey]; decide) (hkey ▸ hlive) (by rw [hid]; decide) hs'
  exact ⟨s, s', c, hreach, hc, hid, hlive, hs', hserved.1⟩

/-- A pool of one slot is full once the first request is committed: the
same request again is turned away before the store is asked. -/
theorem replay_turned_away :
    ∃ s, keyedSys.Reach (fun _ _ => True) s ∧ Live s.log "k" "00" "sub_a" ∧
      s.creators.map (fun c => (c.id, @fingerprint GoStd.salted marshalPolicy c.req,
        match c.handler with
        | .answered answer => answer.status
        | _ => 0)) = [("sub_a", "00", 202), ("sub_b", "00", 429)] := by
  let acts : List (CreationAction LocalPool) :=
    [.request keyedRequest "sub_a" 0, .call 0 none 0, .call 0 none 0, .call 0 none 0,
     .request keyedRequest "sub_b" 0, .call 1 none 0]
  have hrun : (keyedSys.run (fun _ _ => True) acts (creationStart 1)).map (fun s =>
      (s.log, s.creators.map (fun c => (c.id, @fingerprint GoStd.salted marshalPolicy c.req,
        match c.handler with
        | .answered answer => answer.status
        | _ => 0)))) =
      some ([.accepted "sub_a", .committed "sub_a", .created "k" "00" "sub_a"],
        [("sub_a", "00", 202), ("sub_b", "00", 429)]) := by
    decide +kernel
  obtain ⟨s, hreach, heq⟩ := (creationStart_reach 1).of_run_map hrun
  simp only [Prod.mk.injEq] at heq
  obtain ⟨hlog, hcreators⟩ := heq
  refine ⟨s, hreach, ?_, hcreators⟩
  rw [hlog]
  exact ⟨by simp, by simp⟩

/-- The run along `acts`, a shutdown of the pool, and the run along
`rest`. -/
def closing (ok : CreationState LocalPool → CreationAction LocalPool → Bool)
    (acts rest : List (CreationAction LocalPool)) : Option (CreationState LocalPool) :=
  (keyedSys.run (fun s a => ok s a = true) acts (creationStart 2)).bind fun s =>
    keyedSys.run (fun s a => ok s a = true) (.dispatcher s.pool.close :: rest) s

theorem reach_closing {ok : CreationState LocalPool → CreationAction LocalPool → Bool}
    {acts rest : List (CreationAction LocalPool)} {s : CreationState LocalPool}
    (h : closing ok acts rest = some s) : keyedSys.Reach (fun s a => ok s a = true) s := by
  obtain ⟨s₁, h₁, h₂⟩ := Option.bind_eq_some_iff.mp h
  exact ((creationStart_reach 2).of_run h₁).of_run h₂

/-- The pool is closed between the first request's write and its commit.
The second request was answered with the submission in between. -/
theorem accepted_then_abandoned :
    ∃ s, keyedSys.Reach (fun _ _ => True) s ∧
      s.log = [.abandoned "sub_a", .accepted "sub_a", .created "k" "00" "sub_a"] ∧
      s.world.store.status "sub_a" = none ∧ ¬ s.log.Pairwise Honours := by
  have hrun : (closing (fun _ _ => true)
      [.request keyedRequest "sub_a" 0, .request keyedRequest "sub_b" 0,
        .call 0 none 0, .call 1 none 0, .call 0 none 0, .call 1 none 0, .call 1 none 0]
      [.call 0 none 0, .call 0 none 0]).map (fun s => (s.log, s.world.store.status "sub_a")) =
      some ([.abandoned "sub_a", .accepted "sub_a", .created "k" "00" "sub_a"], none) := by
    decide +kernel
  obtain ⟨s, hs, heq⟩ := Option.map_eq_some_iff.mp hrun
  simp only [Prod.mk.injEq] at heq
  refine ⟨s, ?_, heq.1, heq.2, ?_⟩
  · exact (reach_closing hs).mono fun _ _ _ => trivial
  · rw [heq.1]
    intro hpair
    exact (List.pairwise_cons.mp hpair).1 (.accepted "sub_a") (by simp) "sub_a" rfl rfl

/-- A process in queue mode, on a new store. -/
def queuedStart : CreationState QueuePool where
  pool := newQueuePool {} "h"
  world := {}
  creators := []
  log := []

def queuedSys : Sys (CreationState QueuePool) (CreationAction QueuePool) :=
  @creationSys GoStd.salted QueuePool marshalPolicy queueAdmission

/-- Firm runs: a local pool is closed before anybody was answered, and a
queue takes the job. -/
theorem accepted_never_abandoned_closed :
    (∃ s, keyedSys.Reach (fun s a => firm localAdmission s a = true) s ∧
      s.log = [.abandoned "sub_a", .created "k" "00" "sub_a"] ∧ s.log.Pairwise Honours) ∧
    ∃ s, queuedSys.Reach (fun s a => firm queueAdmission s a = true) s ∧
      s.log = [.accepted "sub_a", .committed "sub_a", .created "k" "00" "sub_a"] ∧
      s.log.Pairwise Honours := by
  let _ := GoStd.salted
  have hclosed : (closing (firm localAdmission)
      [.request keyedRequest "sub_a" 0, .call 0 none 0, .call 0 none 0]
      [.call 0 none 0, .call 0 none 0]).map (fun s => s.log) =
      some [.abandoned "sub_a", .created "k" "00" "sub_a"] := by
    decide +kernel
  have hqueued : (queuedSys.run (fun s a => firm queueAdmission s a = true)
      [.request keyedRequest "sub_a" 0, .call 0 none 0, .call 0 none 0, .call 0 none 0]
      queuedStart).map (fun s => s.log) =
      some [.accepted "sub_a", .committed "sub_a", .created "k" "00" "sub_a"] := by
    decide +kernel
  constructor
  · obtain ⟨s, hs, hlog⟩ := Option.map_eq_some_iff.mp hclosed
    have hreach := reach_closing hs
    exact ⟨s, hreach, hlog, accepted_never_abandoned (d := localAdmission) hreach⟩
  · obtain ⟨s, hreach, hlog⟩ := (Sys.Reach.init ⟨rfl, rfl, rfl⟩ :
      queuedSys.Reach (fun s a => firm queueAdmission s a = true) queuedStart).of_run_map hqueued
    exact ⟨s, hreach, hlog, accepted_never_abandoned (d := queueAdmission) hreach⟩

end Scintx.System
