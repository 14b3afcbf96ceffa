/-
Scintx.Webhook.Deliver — outgoing deliveries of events
(`internal/webhook/deliver.go`).

`Deliver` takes a slot of a channel of eight or drops the event; it never
waits. A delivery is a goroutine that posts the event until the
subscriber confirms it, at most `MaxAttempts` times, and then gives the
slot back. `Close` looks at the channel until it is empty, the deadline
passes or its context is done.

The system is any number of calls of `Deliver` and their goroutines, in
any interleaving, with one call of `Close`. What the network does to a
request is a choice of the step. A request that was answered by an error,
or whose answer was lost, MAY HAVE ARRIVED, so a subscriber can get one
event up to `MaxAttempts` times; after it has confirmed one request no
other follows. Nothing here is told to the caller: an event that was
dropped or given up is in the log of the gateway only.
-/
import Scintx.Lib.Transition
import Scintx.Webhook.Sign

namespace Scintx.Webhook

open Scintx.Lib Scintx.Api Scintx.Auth

structure HTTPDeliverer where
  url : String
  secret : List UInt8
  timeout : Duration
  maxAttempts : Int

/-! ## One request -/

/-- How a request ends. -/
inductive Reply where
  /-- Nothing was sent. -/
  | refused (err : String)
  /-- The request may have been handled, its answer did not come. -/
  | lost (arrived : Bool) (err : String)
  | status (code : Nat)

/-- What one call of `postOnce` did. -/
structure Attempt where
  number : Int
  /-- The time and the body that were signed; none where the event has no
  JSON. -/
  signed : Option (Int × List UInt8)
  arrived : Bool
  err : Option String

/-- `encode` is `json.Marshal` of an event. -/
def postOnce (encode : CloudEvent → Except String (List UInt8)) (number : Int) (now : Time)
    (reply : Reply) (evt : CloudEvent) : Attempt :=
  match encode evt with
  | .error e => { number := number, signed := none, arrived := false, err := some e }
  | .ok body =>
    let signed := some (unixSeconds now, body)
    match reply with
    | .refused e => { number := number, signed := signed, arrived := false, err := some e }
    | .lost arrived e => { number := number, signed := signed, arrived := arrived, err := some e }
    | .status code =>
      { number := number, signed := signed, arrived := true
        err := if code < 200 ∨ 300 ≤ code then some ("webhook status " ++ toString code) else none }

/-! ## Deliveries -/

/-- Where the goroutine of a delivery is. -/
inductive DeliveryPc where
  | posting (attempt : Int)
  /-- For `attempt * attempt * 100` milliseconds. -/
  | sleeping (attempt : Int)
  /-- `deliverWithRetry` has returned, the slot is still taken. -/
  | leaving
  | ended
  deriving DecidableEq

structure Delivery where
  event : CloudEvent
  pc : DeliveryPc
  attempts : List Attempt := []

/-- Where a call of `Close` is. -/
inductive ClosePc where
  | out
  | polling
  | waiting
  | returned (err : Option String)
  deriving DecidableEq

structure Deliveries where
  /-- `len(d.sem)`. -/
  sem : Nat := 0
  deliveries : List Delivery := []
  closer : ClosePc := .out
  -- what was passed to `Deliver`, and what of it found no slot
  offered : List CloudEvent := []
  dropped : List CloudEvent := []

inductive DeliverAction where
  | deliver (evt : CloudEvent)
  | post (k : Nat) (now : Time) (reply : Reply)
  | wake (k : Nat)
  | leave (k : Nat)
  -- `Close`: its call, a look at the clock and the channel, the end of a wait
  | close
  | poll (beforeDeadline : Bool)
  | waited (ctxErr : Option String)

/-- The capacity of `d.sem`. -/
def semCapacity : Nat := 8

/-- The loop of `deliverWithRetry`, before an attempt. -/
def DeliveryPc.before (maxAttempts attempt : Int) : DeliveryPc :=
  if attempt ≤ maxAttempts then .posting attempt else .leaving

/-- The loop after an attempt. -/
def DeliveryPc.after (maxAttempts attempt : Int) : Option String → DeliveryPc
  | none => .leaving
  | some _ => if attempt < maxAttempts then .sleeping attempt else .leaving

variable (encode : CloudEvent → Except String (List UInt8)) (d : HTTPDeliverer)

def deliverStep : DeliverAction → Deliveries → Option Deliveries
  | .deliver evt, s =>
    let s := { s with offered := s.offered ++ [evt] }
    if s.sem < semCapacity then
      some { s with
        sem := s.sem + 1
        deliveries := s.deliveries ++ [{ event := evt, pc := .before d.maxAttempts 1 }] }
    else some { s with dropped := s.dropped ++ [evt] }
  | .post k now reply, s =>
    match s.deliveries[k]? with
    | some ⟨evt, .posting n, attempts⟩ =>
      let attempt := postOnce encode n now reply evt
      let next := ⟨evt, .after d.maxAttempts n attempt.err, attempts ++ [attempt]⟩
      some { s with deliveries := s.deliveries.set k next }
    | _ => none
  | .wake k, s =>
    match s.deliveries[k]? with
    | some ⟨evt, .sleeping n, attempts⟩ =>
      let next := ⟨evt, .before d.maxAttempts (n + 1), attempts⟩
      some { s with deliveries := s.deliveries.set k next }
    | _ => none
  | .leave k, s =>
    match s.deliveries[k]? with
    | some ⟨evt, .leaving, attempts⟩ =>
      -- a receive from an empty channel would block
      if s.sem = 0 then none
      else some { s with
        sem := s.sem - 1
        deliveries := s.deliveries.set k ⟨evt, .ended, attempts⟩ }
    | _ => none
  | .close, s => if s.closer = .out then some { s with closer := .polling } else none
  | .poll beforeDeadline, s =>
    if s.closer ≠ .polling then none
    else if !beforeDeadline then
      some { s with closer := .returned (some "context deadline exceeded") }
    else if s.sem = 0 then some { s with closer := .returned none }
    else some { s with closer := .waiting }
  | .waited ctxErr, s =>
    if s.closer ≠ .waiting then none
    else
      match ctxErr with
      | some e => some { s with closer := .returned (some e) }
      | none => some { s with closer := .polling }

def deliverSys : Sys Deliveries DeliverAction where
  init s := s = {}
  step := deliverStep encode d

/-! ## What a delivery has done -/

/-- The slot of the delivery is taken. -/
def Delivery.live (x : Delivery) : Bool := x.pc ≠ .ended

def Delivery.Failed (x : Delivery) : Prop := ∀ a ∈ x.attempts, a.err ≠ none

/-- The delivery is over: the last request was confirmed and none before
it, or all attempts were made and failed. -/
def Delivery.Settled (maxAttempts : Int) (x : Delivery) : Prop :=
  (∃ front last, x.attempts = front ++ [last] ∧ last.err = none ∧ ∀ a ∈ front, a.err ≠ none) ∨
    ((x.attempts.length : Int) = max maxAttempts 0 ∧ x.Failed)

/-- What has been done at each place of the goroutine. -/
def Delivery.Staged (maxAttempts : Int) (x : Delivery) : Prop :=
  match x.pc with
  | .posting n => n = x.attempts.length + 1 ∧ n ≤ maxAttempts ∧ x.Failed
  | .sleeping n => n = x.attempts.length ∧ n < maxAttempts ∧ x.Failed
  | .leaving | .ended => x.Settled maxAttempts

structure Delivery.Sound (maxAttempts : Int) (x : Delivery) : Prop where
  /-- The attempts are numbered from one. -/
  numbered : ∀ (i : Nat) (a : Attempt), x.attempts[i]? = some a → a.number = (i : Int) + 1
  few : (x.attempts.length : Int) ≤ max maxAttempts 0
  /-- What was signed is the event. -/
  signed : ∀ a ∈ x.attempts, ∀ ts body, a.signed = some (ts, body) → encode x.event = .ok body
  staged : x.Staged maxAttempts

/-- One step of a goroutine. -/
inductive DeliveryStep : Delivery → Delivery → Prop
  | post {evt : CloudEvent} {n : Int} {attempts : List Attempt} (now : Time) (reply : Reply) :
      DeliveryStep ⟨evt, .posting n, attempts⟩
        ⟨evt, .after d.maxAttempts n (postOnce encode n now reply evt).err,
          attempts ++ [postOnce encode n now reply evt]⟩
  | wake {evt : CloudEvent} {n : Int} {attempts : List Attempt} :
      DeliveryStep ⟨evt, .sleeping n, attempts⟩ ⟨evt, .before d.maxAttempts (n + 1), attempts⟩

/-- All that a step of the system can do. -/
inductive DeliverMove (s : Deliveries) : DeliverAction → Deliveries → Prop
  | take {evt : CloudEvent} (hfree : s.sem < semCapacity) :
      DeliverMove s (.deliver evt)
        { s with
          offered := s.offered ++ [evt]
          sem := s.sem + 1
          deliveries := s.deliveries ++ [⟨evt, .before d.maxAttempts 1, []⟩] }
  | drop {evt : CloudEvent} (hfull : semCapacity ≤ s.sem) :
      DeliverMove s (.deliver evt)
        { s with offered := s.offered ++ [evt], dropped := s.dropped ++ [evt] }
  | step {a : DeliverAction} {k : Nat} {x x' : Delivery} (hk : s.deliveries[k]? = some x)
      (hstep : DeliveryStep encode d x x') :
      DeliverMove s a { s with deliveries := s.deliveries.set k x' }
  | leave {k : Nat} {evt : CloudEvent} {attempts : List Attempt}
      (hk : s.deliveries[k]? = some ⟨evt, .leaving, attempts⟩) (hsem : s.sem ≠ 0) :
      DeliverMove s (.leave k)
        { s with sem := s.sem - 1, deliveries := s.deliveries.set k ⟨evt, .ended, attempts⟩ }
  | close {a : DeliverAction} {closer : ClosePc}
      (hnil : closer = .returned none → s.sem = 0) : DeliverMove s a { s with closer := closer }

section Moves

variable {encode d} {s s' : Deliveries}

theorem deliverStep_move {a : DeliverAction} (h : deliverStep encode d a s = some s') :
    DeliverMove encode d s a s' := by
  have closed {closer : ClosePc} (a : DeliverAction) (hne : closer ≠ .returned none) :
      DeliverMove encode d s a { s with closer := closer } :=
    .close fun heq => absurd heq hne
  cases a with
  | deliver evt =>
    simp only [deliverStep] at h
    split at h <;> cases h
    · exact .take ‹_›
    · exact .drop (not_lt.mp ‹_›)
  | post k now reply =>
    simp only [deliverStep] at h
    split at h <;> cases h
    exact .step ‹_› (.post now reply)
  | wake k =>
    simp only [deliverStep] at h
    split at h <;> cases h
    exact .step ‹_› .wake
  | leave k =>
    simp only [deliverStep] at h
    split at h
    · split at h <;> cases h
      exact .leave ‹_› ‹_›
    · cases h
  | close =>
    simp only [deliverStep] at h
    split at h <;> cases h
    exact closed .close (by decide)
  | poll beforeDeadline =>
    simp only [deliverStep] at h
    split at h
    · cases h
    · split at h
      · cases h
        exact closed _ (by decide)
      · split at h <;> cases h
        · exact .close fun _ => ‹_›
        · exact closed _ (by decide)
  | waited ctxErr =>
    simp only [deliverStep] at h
    split at h
    · cases h
    · split at h <;> cases h
      · exact closed _ (by simp)
      · exact closed _ (by decide)

theorem DeliveryStep.event {x x' : Delivery} (h : DeliveryStep encode d x x') :
    x'.event = x.event := by
  cases h <;> rfl

/-- Only giving the slot back ends a goroutine. -/
theorem DeliveryStep.live {x x' : Delivery} (h : DeliveryStep encode d x x') :
    x'.live = x.live := by
  cases h with
  | post now reply =>
    rename_i evt n attempts
    generalize (postOnce encode n now reply evt).err = err
    simp only [Delivery.live, DeliveryPc.after]
    cases err with
    | none => rfl
    | some e => dsimp only; split <;> rfl
  | wake =>
    simp only [Delivery.live, DeliveryPc.before]
    split <;> rfl

/-! ## Every delivery -/

theorem signed_postOnce {n : Int} {now : Time} {reply : Reply} {evt : CloudEvent} {ts : Int}
    {body : List UInt8} (h : (postOnce encode n now reply evt).signed = some (ts, body)) :
    encode evt = .ok body := by
  unfold postOnce at h
  split at h
  · cases h
  · rename_i hencode
    split at h
    all_goals
      cases h
      exact hencode

theorem number_postOnce (n : Int) (now : Time) (reply : Reply) (evt : CloudEvent) :
    (postOnce encode n now reply evt).number = n := by
  unfold postOnce
  split
  · rfl
  · split <;> rfl

theorem staged_before {evt : CloudEvent} {attempts : List Attempt} {n : Int}
    (hlen : n = attempts.length + 1) (hle : (attempts.length : Int) ≤ max d.maxAttempts 0)
    (hfailed : ∀ a ∈ attempts, a.err ≠ none) :
    (Delivery.mk evt (.before d.maxAttempts n) attempts).Staged d.maxAttempts := by
  unfold DeliveryPc.before
  split
  · exact ⟨hlen, ‹_›, hfailed⟩
  · exact .inr ⟨show (attempts.length : Int) = _ by omega, hfailed⟩

theorem staged_after {evt : CloudEvent} {attempts : List Attempt} {a : Attempt} {n : Int}
    (hlen : n = attempts.length + 1) (hle : n ≤ d.maxAttempts)
    (hfailed : ∀ a ∈ attempts, a.err ≠ none) :
    (Delivery.mk evt (.after d.maxAttempts n a.err) (attempts ++ [a])).Staged d.maxAttempts := by
  cases herr : a.err with
  | none => exact .inl ⟨attempts, a, rfl, herr, hfailed⟩
  | some e =>
    have hall : ∀ b ∈ attempts ++ [a], b.err ≠ none := by
      intro b hb
      rcases List.mem_append.mp hb with hold | hnew
      · exact hfailed b hold
      · rw [List.mem_singleton.mp hnew, herr]
        exact Option.some_ne_none e
    have hcount : ((attempts ++ [a]).length : Int) = n := by
      rw [List.length_append, hlen]
      rfl
    simp only [DeliveryPc.after]
    split
    · exact ⟨hcount.symm, ‹_›, hall⟩
    · exact .inr ⟨show ((attempts ++ [a]).length : Int) = _ by omega, hall⟩

theorem DeliveryStep.sound {x x' : Delivery} (h : DeliveryStep encode d x x')
    (hx : x.Sound encode d.maxAttempts) : x'.Sound encode d.maxAttempts := by
  cases h with
  | post now reply =>
    rename_i evt n attempts
    obtain ⟨hlen, hle, hfailed⟩ := hx.staged
    simp only at hlen
    refine ⟨fun i a ha => ?_, ?_, fun a ha ts body hsigned => ?_, staged_after hlen hle hfailed⟩
    · rw [List.getElem?_append] at ha
      split at ha
      · exact hx.numbered i a ha
      · rename_i hge
        rw [List.getElem?_singleton] at ha
        split at ha
        · rename_i hzero
          rw [← Option.some.inj ha, number_postOnce, hlen]
          omega
        · cases ha
    · rw [List.length_append, List.length_singleton]
      omega
    · rcases List.mem_append.mp ha with hold | hnew
      · exact hx.signed a hold ts body hsigned
      · rw [List.mem_singleton.mp hnew] at hsigned
        exact signed_postOnce hsigned
  | wake =>
    obtain ⟨hlen, hlt, hfailed⟩ := hx.staged
    exact ⟨hx.numbered, hx.few, hx.signed, staged_before (by rw [hlen]) hx.few hfailed⟩

/-! ## All deliveries -/

/-- The books of the deliverer. -/
structure Accounted (encode : CloudEvent → Except String (List UInt8)) (d : HTTPDeliverer)
    (s : Deliveries) : Prop where
  offered : s.offered.Perm (s.dropped ++ s.deliveries.map (·.event))
  slots : s.sem = weigh (fun x => x.live.toNat) s.deliveries
  bound : s.sem ≤ semCapacity
  sound : ∀ x ∈ s.deliveries, x.Sound encode d.maxAttempts

theorem map_event_set {k : Nat} {x x' : Delivery} {xs : List Delivery} (hk : xs[k]? = some x)
    (hevent : x'.event = x.event) : (xs.set k x').map (·.event) = xs.map (·.event) := by
  rw [List.map_set, hevent]
  exact set_eq_self (by rw [List.getElem?_map, hk]; rfl)

theorem Accounted.move {a : DeliverAction} (h : Accounted encode d s)
    (hm : DeliverMove encode d s a s') : Accounted encode d s' := by
  cases hm with
  | take hfree =>
    rename_i evt
    have hnew : (Delivery.mk evt (.before d.maxAttempts 1) []).Sound encode d.maxAttempts :=
      { numbered := fun i a ha => by simp at ha
        few := by simp
        signed := fun a ha => by cases ha
        staged := staged_before rfl (by simp) (fun a ha => by cases ha) }
    have hlive : (Delivery.mk evt (.before d.maxAttempts 1) []).live = true := by
      simp only [Delivery.live, DeliveryPc.before]
      split <;> rfl
    refine ⟨?_, ?_, hfree, fun x hx => ?_⟩
    · rw [List.map_append, ← List.append_assoc]
      exact h.offered.append_right [evt]
    · rw [weigh_append, weigh_cons, weigh_nil, hlive, ← h.slots]
      rfl
    · rcases List.mem_append.mp hx with hold | hsing
      · exact h.sound x hold
      · rw [List.mem_singleton.mp hsing]
        exact hnew
  | drop hfull =>
    rename_i evt
    refine ⟨?_, h.slots, h.bound, h.sound⟩
    -- the dropped event stands before the deliveries
    have hperm := h.offered.append_right [evt]
    rw [List.append_assoc] at hperm ⊢
    exact hperm.trans (List.Perm.append_left _ List.perm_append_comm)
  | step hk hstep =>
    rename_i k x x'
    have hset := weigh_set (fun x : Delivery => x.live.toNat) hk x'
    simp only [hstep.live] at hset
    refine ⟨?_, h.slots.trans (Nat.add_right_cancel hset).symm, h.bound, fun y hy => ?_⟩
    · rw [map_event_set hk hstep.event]
      exact h.offered
    · rcases mem_set_cases hy with rfl | hold
      · exact hstep.sound (h.sound _ (List.mem_of_getElem? hk))
      · exact h.sound y hold
  | leave hk hsem =>
    rename_i k evt attempts
    have hx := h.sound _ (List.mem_of_getElem? hk)
    have hslots : s.sem - 1 =
        weigh (fun x : Delivery => x.live.toNat) (s.deliveries.set k ⟨evt, .ended, attempts⟩) := by
      have hset := weigh_set (fun x : Delivery => x.live.toNat) hk ⟨evt, .ended, attempts⟩
      have hold : (Delivery.mk evt .leaving attempts).live.toNat = 1 := rfl
      have hnew : (Delivery.mk evt .ended attempts).live.toNat = 0 := rfl
      rw [hold, hnew, ← h.slots] at hset
      omega
    have hevents : (s.deliveries.set k ⟨evt, .ended, attempts⟩).map (·.event) =
        s.deliveries.map (·.event) := map_event_set hk rfl
    refine ⟨?_, hslots, le_trans (Nat.sub_le _ _) h.bound, fun y hy => ?_⟩
    · rw [hevents]
      exact h.offered
    · rcases mem_set_cases hy with rfl | hmem
      · exact ⟨hx.numbered, hx.few, hx.signed, hx.staged⟩
      · exact h.sound y hmem
  | close hnil => exact ⟨h.offered, h.slots, h.bound, h.sound⟩

theorem accounted_reach {ok : Deliveries → DeliverAction → Prop}
    (h : (deliverSys encode d).Reach ok s) : Accounted encode d s := by
  refine h.invariant (fun s₀ h0 => ?_) (fun s₁ a s₂ hinv _ hs => hinv.move (deliverStep_move hs))
  obtain rfl : s₀ = {} := h0
  exact ⟨.refl _, rfl, Nat.zero_le _, fun x hx => by cases hx⟩

theorem Accounted.countP_live (h : Accounted encode d s) :
    s.deliveries.countP Delivery.live = s.sem := by
  rw [h.slots, weigh_toNat]

/-- The requests of a delivery that were confirmed. -/
def Delivery.confirmed (x : Delivery) : List Attempt := x.attempts.filter (·.err = none)

theorem confirmed_eq_nil {x : Delivery} (h : x.Failed) : x.confirmed = [] :=
  List.filter_eq_nil_iff.mpr fun a ha herr => h a ha (by simpa using herr)

theorem Delivery.Sound.confirmed_le {x : Delivery} (h : x.Sound encode d.maxAttempts) :
    x.confirmed.length ≤ 1 := by
  have settled (hs : x.Settled d.maxAttempts) : x.confirmed.length ≤ 1 := by
    rcases hs with ⟨front, last, hattempts, -, hfront⟩ | ⟨-, hfailed⟩
    · have hnil : front.filter (·.err = none) = [] :=
        List.filter_eq_nil_iff.mpr fun a ha herr => hfront a ha (by simpa using herr)
      rw [Delivery.confirmed, hattempts, List.filter_append, hnil, List.nil_append]
      exact List.length_filter_le _ [last]
    · rw [confirmed_eq_nil hfailed]
      exact Nat.zero_le 1
  have failed (hf : x.Failed) : x.confirmed.length ≤ 1 := by
    rw [confirmed_eq_nil hf]
    exact Nat.zero_le 1
  have hstaged := h.staged
  unfold Delivery.Staged at hstaged
  split at hstaged
  · exact failed hstaged.2.2
  · exact failed hstaged.2.2
  · exact settled hstaged
  · exact settled hstaged

theorem Delivery.Sound.settled {x : Delivery} (h : x.Sound encode d.maxAttempts)
    (hended : x.live = false) : x.Settled d.maxAttempts := by
  have hpc : x.pc = .ended := by simpa [Delivery.live] using hended
  have hstaged := h.staged
  unfold Delivery.Staged at hstaged
  rw [hpc] at hstaged
  exact hstaged

end Moves

section Results

variable {encode : CloudEvent → Except String (List UInt8)} {d : HTTPDeliverer}
  {s s' : Deliveries} {ok : Deliveries → DeliverAction → Prop}

/-- **Every event is accounted for.** An event passed to `Deliver` is
dropped or has one delivery; a delivery posts at most `MaxAttempts` times,
is confirmed at most once, and when it is over it was confirmed or failed
every time. At most eight are under way, and an event is dropped just
when there are eight. -/
theorem deliveries_accounted (h : (deliverSys encode d).Reach ok s) :
    s.offered.Perm (s.dropped ++ s.deliveries.map (·.event)) ∧
      s.deliveries.countP Delivery.live ≤ semCapacity ∧
      (∀ x ∈ s.deliveries, (x.attempts.length : Int) ≤ max d.maxAttempts 0 ∧
        x.confirmed.length ≤ 1 ∧ (x.live = false → x.Settled d.maxAttempts)) ∧
      ∀ evt s', deliverStep encode d (.deliver evt) s = some s' →
        (s'.dropped = s.dropped ++ [evt] ↔
          s.deliveries.countP Delivery.live = semCapacity) := by
  have hinv := accounted_reach h
  refine ⟨hinv.offered, hinv.countP_live ▸ hinv.bound, fun x hx => ?_, fun evt s' hstep => ?_⟩
  · have hsound := hinv.sound x hx
    exact ⟨hsound.few, hsound.confirmed_le, hsound.settled⟩
  · rw [hinv.countP_live]
    have hbound := hinv.bound
    simp only [deliverStep] at hstep
    split at hstep <;> cases hstep
    · rename_i hfree
      have hne : s.dropped ≠ s.dropped ++ [evt] := by simp
      exact ⟨fun heq => absurd heq hne, fun heq => absurd heq (by omega)⟩
    · exact ⟨fun _ => by omega, fun _ => rfl⟩

end Results

/-- An event to deliver, and a deliverer. -/
def sampleEvent : CloudEvent where
  id := "evt_a"
  source := "s"
  type := "submission.completed"
  subject := "submission/sub_a"
  time := 0
  data := ∅
  sequence := 1

def sampleDeliverer : HTTPDeliverer where
  url := "http://example.invalid/hook"
  secret := [107]
  timeout := 10000000000
  maxAttempts := 3

/-- The answer to the first request is lost, the second is confirmed. -/
def retriedSteps : List DeliverAction :=
  [.deliver sampleEvent, .post 0 (unixTime 1) (.lost true "timeout"), .wake 0,
    .post 0 (unixTime 2) (.status 204), .leave 0]

theorem deliveries_accounted_retried :
    ∃ s x, (deliverSys (fun e => .ok (bytesOf e.id)) sampleDeliverer).Reach (fun _ _ => True) s ∧
      x ∈ s.deliveries ∧ x.attempts.length = 2 ∧ x.Settled sampleDeliverer.maxAttempts := by
  have hrun : ((deliverSys (fun e => .ok (bytesOf e.id)) sampleDeliverer).run (fun _ _ => True)
      retriedSteps {}).map (fun s => s.deliveries.map fun x => (x.live, x.attempts.length)) =
      some [(false, 2)] := by
    decide +kernel
  obtain ⟨s, hreach, heq⟩ := (Sys.Reach.init rfl : (deliverSys (fun e => .ok (bytesOf e.id))
    sampleDeliverer).Reach (fun _ _ => True) {}).of_run_map hrun
  obtain ⟨x, hx, hpair⟩ := List.mem_map.mp (heq ▸ List.mem_singleton_self (false, 2))
  simp only [Prod.mk.injEq] at hpair
  exact ⟨s, x, hreach, hx, hpair.2,
    ((deliveries_accounted hreach).2.2.1 x hx).2.2 hpair.1⟩

section Results

variable {encode : CloudEvent → Except String (List UInt8)} {d : HTTPDeliverer}
  {s s' : Deliveries} {ok : Deliveries → DeliverAction → Prop}

/-- **A `Close` that returns nil leaves nothing under way**: each event
was dropped, or its delivery is over. -/
theorem close_nil_settled {a : DeliverAction} (h : (deliverSys encode d).Reach ok s)
    (hstep : deliverStep encode d a s = some s') (hout : s.closer ≠ .returned none)
    (hnil : s'.closer = .returned none) :
    ∀ evt ∈ s'.offered, evt ∈ s'.dropped ∨
      ∃ x ∈ s'.deliveries, x.event = evt ∧ x.Settled d.maxAttempts := by
  have hinv := accounted_reach h
  have hmove := deliverStep_move hstep
  have hinv' := hinv.move hmove
  have hsem : s'.sem = 0 := by
    cases hmove with
    | close hzero => exact hzero hnil
    | _ => exact absurd hnil hout
  intro evt hevt
  rcases List.mem_append.mp (hinv'.offered.mem_iff.mp hevt) with hdropped | hdelivery
  · exact .inl hdropped
  · obtain ⟨x, hx, rfl⟩ := List.mem_map.mp hdelivery
    have hcount := hinv'.countP_live
    rw [hsem, List.countP_eq_zero] at hcount
    exact .inr ⟨x, hx, rfl, (hinv'.sound x hx).settled (by simpa using hcount x hx)⟩

end Results

/-- `Close` is called while the delivery waits for its second attempt. -/
theorem close_nil_settled_retried :
    ∃ s s', (deliverSys (fun e => .ok (bytesOf e.id)) sampleDeliverer).Reach (fun _ _ => True) s ∧
      deliverStep (fun e => .ok (bytesOf e.id)) sampleDeliverer (.poll true) s = some s' ∧
      s'.closer = .returned none ∧ (sampleEvent ∈ s'.dropped ∨
        ∃ x ∈ s'.deliveries, x.event = sampleEvent ∧ x.Settled sampleDeliverer.maxAttempts) := by
  let acts : List DeliverAction :=
    retriedSteps.take 2 ++ [.close, .poll true, .waited none] ++ retriedSteps.drop 2
  have hrun : ((deliverSys (fun e => .ok (bytesOf e.id)) sampleDeliverer).run (fun _ _ => True)
      acts {}).map (fun s => (s.closer,
        (deliverStep (fun e => .ok (bytesOf e.id)) sampleDeliverer (.poll true) s).map
          fun s' => (s'.closer, decide (sampleEvent ∈ s'.offered)))) =
      some (.polling, some (.returned none, true)) := by
    decide +kernel
  obtain ⟨s, hreach, heq⟩ := (Sys.Reach.init rfl : (deliverSys (fun e => .ok (bytesOf e.id))
    sampleDeliverer).Reach (fun _ _ => True) {}).of_run_map hrun
  simp only [Prod.mk.injEq, Option.map_eq_some_iff, decide_eq_true_eq] at heq
  obtain ⟨hpolling, s', hs', hnil, hoffered⟩ := heq
  have hout : s.closer ≠ .returned none := by
    rw [hpolling]
    decide
  exact ⟨s, s', hreach, hs', hnil, close_nil_settled hreach hs' hout hnil sampleEvent hoffered⟩

section Results

variable {encode : CloudEvent → Except String (List UInt8)} {d : HTTPDeliverer}
  {s s' : Deliveries} {ok : Deliveries → DeliverAction → Prop}

/-- The times and bodies that were signed. -/
def Deliveries.signed (s : Deliveries) : List (Int × List UInt8) :=
  s.deliveries.flatMap fun x => x.attempts.filterMap (·.signed)

/-- **A body that a subscriber accepts is an event that was passed to
`Deliver`**, as long as the MACs that reach the subscriber are the
gateway's. -/
theorem accepted_event_offered [GoStd] {header : String} {body : List UInt8} {maxSkew : Duration}
    {now : Time} (h : (deliverSys encode d).Reach ok s)
    (hmacs : ∀ f m, readHeader header = .ok f → f.v1 = hexEncode (GoStd.hmacSHA256 d.secret m) →
      m ∈ s.signed.map fun p => signedMessage p.1 p.2)
    (haccept : verifySignature d.secret header body maxSkew now = .ok ()) :
    ∃ evt ∈ s.offered, encode evt = .ok body := by
  have hinv := accounted_reach h
  obtain ⟨ts, hsent, -⟩ := accepted_was_signed hmacs haccept
  obtain ⟨x, hx, hattempt⟩ := List.mem_flatMap.mp hsent
  obtain ⟨a, ha, hsigned⟩ := List.mem_filterMap.mp hattempt
  have hevent : x.event ∈ s.deliveries.map (·.event) := List.mem_map_of_mem hx
  exact ⟨x.event, hinv.offered.mem_iff.mpr (List.mem_append_right _ hevent),
    (hinv.sound x hx).signed a ha ts body hsigned⟩

end Results

/-- The second request, at the subscriber. -/
theorem accepted_event_offered_retried :
    ∃ s header, (deliverSys (fun e => .ok (bytesOf e.id)) sampleDeliverer).Reach
        (fun _ _ => True) s ∧
      @verifySignature GoStd.plain sampleDeliverer.secret header (bytesOf "evt_a") 1000000000
        (unixTime 2) = .ok () ∧
      ∃ evt ∈ s.offered, (.ok (bytesOf evt.id) : Except String (List UInt8)) =
        .ok (bytesOf "evt_a") := by
  let _ := GoStd.plain
  have hrun : ((deliverSys (fun e => .ok (bytesOf e.id)) sampleDeliverer).run (fun _ _ => True)
      retriedSteps {}).map Deliveries.signed =
      some [(1, bytesOf "evt_a"), (2, bytesOf "evt_a")] := by
    decide +kernel
  obtain ⟨s, hreach, heq⟩ := (Sys.Reach.init rfl : (deliverSys (fun e => .ok (bytesOf e.id))
    sampleDeliverer).Reach (fun _ _ => True) {}).of_run_map hrun
  let header := signatureHeader 2 (signBody sampleDeliverer.secret 2 (bytesOf "evt_a"))
  have haccept : verifySignature sampleDeliverer.secret header (bytesOf "evt_a") 1000000000
      (unixTime 2) = .ok () := by
    decide +kernel
  have hmacs (f : SignatureFields) (m : List UInt8) (hf : readHeader header = .ok f)
      (hv1 : f.v1 = hexEncode (GoStd.hmacSHA256 sampleDeliverer.secret m)) :
      m ∈ s.signed.map fun p => signedMessage p.1 p.2 := by
    have hread : readHeader header =
        .ok { ts := 2, v1 := signBody sampleDeliverer.secret 2 (bytesOf "evt_a") } :=
      readHeader_signatureHeader (by decide) (by decide) (fun hnil => by cases hnil)
    rw [hread] at hf
    obtain rfl := Except.ok.inj hf
    have hm : signedMessage 2 (bytesOf "evt_a") = m :=
      List.append_cancel_left (hexEncode_injective hv1)
    rw [heq, ← hm]
    simp
  exact ⟨s, header, hreach, haccept, accepted_event_offered hreach hmacs haccept⟩

end Scintx.Webhook
