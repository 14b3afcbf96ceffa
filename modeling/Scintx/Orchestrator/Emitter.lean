/-
Scintx.Orchestrator.Emitter — the sequence numbers of the stored events
(`internal/scintx/events.go`, `Emit`).

`World.emit` is `Emit` as a whole. Here it is taken apart: the number is
drawn by an atomic addition, past `MaxInt32` by a store of zero and one
more addition, and the event is appended afterwards. Each of these is a
step, and several goroutines take them at once.

A call that nobody interrupts is `World.emit` (`emit_alone`), and as long
as calls do not overlap the log is what the schema calls per-source
monotonic: ascending, with a restart at 1 behind `MaxInt32`. Two calls
that overlap append in either order, whatever the counter starts at; at
the restart they may draw the same number. So the log is in order over
all runs exactly if calls never overlap (`events_in_order_iff`).

The log is that of the memory store, which takes every event.
-/
import Scintx.Lib.Transition
import Scintx.Orchestrator.World

namespace Scintx.Orchestrator

open Scintx.Lib Scintx.Api Scintx.Store

/-! ## Emit, step by step -/

/-- Where a call of `Emit` stands: what it does next. -/
inductive EmitPc where
  /-- `atomic.AddUint64(&e.seq, 1)`. -/
  | add (e : Emission)
  /-- `atomic.StoreUint64(&e.seq, 0)`. -/
  | reset (e : Emission)
  /-- The addition after the store. -/
  | addAgain (e : Emission)
  /-- `AppendEvent`, with the number drawn. -/
  | append (e : Emission) (seq : Nat)
  deriving DecidableEq

def World.setSeq (w : World) (seq : Nat) : World :=
  { w with emitter := { w.emitter with seq := seq } }

/-- The counter after an addition; it is a `uint64`. -/
def addOne (seq : Nat) : Nat := (seq + 1) % 18446744073709551616

/-- One step of a call; `none` is its return. -/
def EmitPc.step (randHex : String) (now : Time) (w : World) : EmitPc → World × Option EmitPc
  | .add e =>
    let s := addOne w.emitter.seq
    (w.setSeq s, some (if maxSequence < s then .reset e else .append e s))
  | .reset e => (w.setSeq 0, some (.addAgain e))
  | .addAgain e =>
    let s := addOne w.emitter.seq
    (w.setSeq s, some (.append e s))
  | .append e seq =>
    let event : CloudEvent :=
      { id := "evt_" ++ randHex
        source := w.emitter.source
        type := e.type
        subject := e.subject
        time := now
        data := e.data
        sequence := seq }
    ({ w with store := w.store.appendEvent event }, none)

structure Emitting where
  world : World
  /-- The calls in progress. -/
  calls : List EmitPc

inductive EmitAction where
  | start (e : Emission)
  | step (i : Nat) (randHex : String) (now : Time)

/-- The calls after the `i`th made a step. -/
def moveCall (calls : List EmitPc) (i : Nat) : Option EmitPc → List EmitPc
  | some pc => calls.set i pc
  | none => calls.eraseIdx i

def emitStep : EmitAction → Emitting → Option Emitting
  | .start e, s => some { s with calls := s.calls ++ [.add e] }
  | .step i randHex now, s =>
    (s.calls[i]?).map fun pc =>
      { world := (pc.step randHex now s.world).1
        calls := moveCall s.calls i (pc.step randHex now s.world).2 }

/-- An emitter whose counter stands at `seq`, on an empty log. -/
def emitSys (seq : Nat) : Sys Emitting EmitAction where
  init s := s.world.emitter.seq = seq ∧ s.world.store.events = [] ∧ s.calls = []
  step := emitStep

/-- No call begins while `k` are in progress. -/
def Overlapping (k : Nat) (s : Emitting) : EmitAction → Prop
  | .start _ => s.calls.length < k
  | .step _ _ _ => True

instance (k : Nat) (s : Emitting) : DecidablePred (Overlapping k s)
  | .start _ => inferInstanceAs (Decidable (_ < _))
  | .step _ _ _ => .isTrue trivial

/-- The numbers of the stored events, oldest first. -/
def Emitting.log (s : Emitting) : List Nat := s.world.store.events.map (·.sequence)

/-! ## Logs in order -/

/-- `b` may come right behind `a`: it is larger, or the numbers restart. -/
def Succeeds (a b : Nat) : Prop := a < b ∨ a = maxSequence ∧ b = 1

instance (a b : Nat) : Decidable (Succeeds a b) := inferInstanceAs (Decidable (_ ∨ _))

structure InOrder (log : List Nat) : Prop where
  ascending : log.IsChain Succeeds
  /-- A stretch without a restart has no number twice. -/
  distinct : ∀ part, part <:+: log → 1 ∉ part.tail → part.Nodup

/-- A stretch without a restart ascends. -/
theorem pairwise_lt_of_isChain {part : List Nat} (h : part.IsChain Succeeds)
    (hone : 1 ∉ part.tail) : part.Pairwise (· < ·) := by
  rw [← List.isChain_iff_pairwise]
  induction part with
  | nil => exact .nil
  | cons a rest ih =>
    cases rest with
    | nil => exact .singleton a
    | cons b rest =>
      rw [List.isChain_cons_cons] at h ⊢
      rw [List.tail_cons, List.mem_cons, not_or] at hone
      refine ⟨h.1.resolve_right fun hr => hone.1 hr.2.symm, ih h.2 hone.2⟩

theorem inOrder_of_isChain {log : List Nat} (h : log.IsChain Succeeds) : InOrder log where
  ascending := h
  distinct _ hpart hone := by
    have hchain := List.IsChain.infix h hpart
    exact (pairwise_lt_of_isChain hchain hone).imp fun hlt => Nat.ne_of_lt hlt

theorem isChain_snoc {log : List Nat} {n : Nat} (h : log.IsChain Succeeds)
    (hlast : ∀ a ∈ log.getLast?, Succeeds a n) : (log ++ [n]).IsChain Succeeds := by
  rw [List.isChain_append]
  refine ⟨h, .singleton n, ?_⟩
  intro a ha b hb
  cases hb
  exact hlast a ha

/-! ## Calls that do not overlap -/

/-- What the only call in progress owes to the last number of the log. -/
def EmitPc.Follows (last : Option Nat) (seq : Nat) : EmitPc → Prop
  | .add _ => ∀ a ∈ last, a = seq
  | .reset _ => ∀ a ∈ last, a = maxSequence
  | .addAgain _ => seq = 0 ∧ ∀ a ∈ last, a = maxSequence
  | .append _ n => n = seq ∧ n ≤ maxSequence ∧ ∀ a ∈ last, Succeeds a n

/-- At most one call is in progress, and the counter is at the last number
of the log. -/
structure Alone (s : Emitting) : Prop where
  chain : s.log.IsChain Succeeds
  bounded : ∀ a ∈ s.log.getLast?, a ≤ maxSequence
  calls : (s.calls = [] ∧ ∀ a ∈ s.log.getLast?, a = s.world.emitter.seq) ∨
    ∃ pc, s.calls = [pc] ∧ pc.Follows s.log.getLast? s.world.emitter.seq

/-- A step of the only call. -/
theorem Alone.move {w : World} {pc : EmitPc} (h : Alone { world := w, calls := [pc] })
    (randHex : String) (now : Time) :
    Alone { world := (pc.step randHex now w).1
            calls := moveCall [pc] 0 (pc.step randHex now w).2 } := by
  obtain ⟨hchain, hbounded, hcalls⟩ := h
  obtain ⟨pc', heq, hfollows⟩ := hcalls.resolve_left (by simp)
  obtain rfl : pc = pc' := by simpa using heq
  cases pc with
  | add e =>
    refine ⟨hchain, hbounded, .inr ⟨_, rfl, ?_⟩⟩
    simp only [EmitPc.Follows, Emitting.log] at hfollows hbounded
    simp only [EmitPc.step, World.setSeq, addOne, Emitting.log]
    by_cases hpast : maxSequence < (w.emitter.seq + 1) % 18446744073709551616
    · -- only a counter at `MaxInt32` or behind it gets here
      simp only [hpast, if_true, EmitPc.Follows]
      intro a ha
      have := hfollows a ha
      have := hbounded a ha
      unfold maxSequence at *
      omega
    · simp only [hpast, if_false, EmitPc.Follows]
      refine ⟨trivial, by omega, ?_⟩
      intro a ha
      have := hfollows a ha
      have := hbounded a ha
      refine .inl ?_
      unfold maxSequence at *
      omega
  | reset e => exact ⟨hchain, hbounded, .inr ⟨_, rfl, rfl, hfollows⟩⟩
  | addAgain e =>
    obtain ⟨hseq, hlast⟩ := hfollows
    have hone : addOne w.emitter.seq = 1 := by
      rw [show w.emitter.seq = 0 from hseq]
      rfl
    refine ⟨hchain, hbounded, .inr ⟨_, rfl, rfl, ?_, ?_⟩⟩
    · rw [hone]
      decide
    · intro a ha
      rw [hone]
      exact .inr ⟨hlast a ha, rfl⟩
  | append e n =>
    obtain ⟨hseq, hle, hlast⟩ := hfollows
    have hlog : Emitting.log
        { world := ((EmitPc.append e n).step randHex now w).1
          calls := moveCall [.append e n] 0 ((EmitPc.append e n).step randHex now w).2 } =
        Emitting.log { world := w, calls := [.append e n] } ++ [n] := by
      simp [Emitting.log, EmitPc.step, MemoryStore.appendEvent]
    refine ⟨?_, ?_, .inl ⟨rfl, ?_⟩⟩
    · rw [hlog]
      exact isChain_snoc hchain hlast
    · rw [hlog, List.getLast?_concat]
      intro a ha
      cases ha
      exact hle
    · rw [hlog, List.getLast?_concat]
      intro a ha
      cases ha
      exact hseq

theorem emitStep_alone {s s' : Emitting} {a : EmitAction} (h : Alone s)
    (hok : Overlapping 1 s a) (hstep : emitStep a s = some s') : Alone s' := by
  cases a with
  | start e =>
    cases hstep
    have hnone : s.calls = [] := List.length_eq_zero_iff.mp (Nat.lt_one_iff.mp hok)
    have hlast := (h.calls.resolve_right (by simp [hnone])).2
    exact ⟨h.chain, h.bounded, .inr ⟨.add e, by simp [hnone], hlast⟩⟩
  | step i randHex now =>
    simp only [emitStep, Option.map_eq_some_iff] at hstep
    obtain ⟨pc, hi, rfl⟩ := hstep
    obtain ⟨w, calls⟩ := s
    rcases h.calls with ⟨hnone, -⟩ | ⟨pc', hone, -⟩
    · simp only at hnone hi
      rw [hnone] at hi
      cases hi
    · simp only at hone hi
      subst hone
      obtain ⟨rfl, rfl⟩ : i = 0 ∧ pc' = pc := by
        cases i with
        | zero => exact ⟨rfl, by simpa using hi⟩
        | succ i => simp at hi
      exact h.move randHex now

theorem alone_reach {seq : Nat} {s : Emitting} (h : (emitSys seq).Reach (Overlapping 1) s) :
    Alone s := by
  refine h.invariant ?_ fun _ _ _ => emitStep_alone
  intro s hinit
  obtain ⟨-, hevents, hcalls⟩ := hinit
  have hlog : s.log = [] := by rw [Emitting.log, hevents]; rfl
  exact ⟨by rw [hlog]; exact .nil, by simp [hlog], .inl ⟨hcalls, by simp [hlog]⟩⟩

/-! ## Calls that overlap -/

section Overlap

variable (seq : Nat) {k : Nat} {w : World} (e : Emission) (randHex : String) (now : Time)

/-- **A call that nobody interrupts is `World.emit`.** -/
theorem emit_alone (hk : 0 < k) :
    ∃ acts, (emitSys seq).run (Overlapping k) acts { world := w, calls := [] } =
      some { world := w.emit none randHex now e, calls := [] } := by
  by_cases hpast : maxSequence < (w.emitter.seq + 1) % 18446744073709551616
  · refine ⟨[.start e, .step 0 randHex now, .step 0 randHex now, .step 0 randHex now,
      .step 0 randHex now], ?_⟩
    simp [Sys.run, emitSys, emitStep, Overlapping, hk, EmitPc.step, addOne, hpast, moveCall,
      World.setSeq, World.emit, nextSequence]
  · refine ⟨[.start e, .step 0 randHex now, .step 0 randHex now], ?_⟩
    simp [Sys.run, emitSys, emitStep, Overlapping, hk, EmitPc.step, addOne, hpast, moveCall,
      World.setSeq, World.emit, nextSequence]

theorem reach_emit (hk : 0 < k)
    (h : (emitSys seq).Reach (Overlapping k) { world := w, calls := [] }) :
    (emitSys seq).Reach (Overlapping k) { world := w.emit none randHex now e, calls := [] } := by
  obtain ⟨acts, hrun⟩ := emit_alone seq e randHex now (w := w) hk
  exact h.of_run hrun

/-- Two calls draw their numbers in one order and append in the other. -/
theorem emit_crossed (hk : 1 < k) (hlow : w.emitter.seq + 2 ≤ maxSequence) :
    ∃ acts, ((emitSys seq).run (Overlapping k) acts { world := w, calls := [] }).map Emitting.log =
      some (w.store.events.map (·.sequence) ++ [w.emitter.seq + 2, w.emitter.seq + 1]) := by
  have hfirst : (w.emitter.seq + 1) % 18446744073709551616 = w.emitter.seq + 1 := by
    unfold maxSequence at hlow
    omega
  have hsecond : (w.emitter.seq + 1 + 1) % 18446744073709551616 = w.emitter.seq + 2 := by
    unfold maxSequence at hlow
    omega
  have hin : ¬ maxSequence < w.emitter.seq + 1 := by omega
  have hin' : ¬ maxSequence < w.emitter.seq + 2 := by omega
  let e : Emission := { type := "", subject := "", data := ∅ }
  refine ⟨[.start e, .start e, .step 0 "" 0, .step 1 "" 0, .step 1 "" 0, .step 0 "" 0], ?_⟩
  have hpos : 0 < k := by omega
  simp [Sys.run, emitSys, emitStep, Overlapping, hk, hpos, EmitPc.step, addOne, hfirst, hsecond,
    hin, hin', moveCall, World.setSeq, Emitting.log, MemoryStore.appendEvent]

theorem nextSequence_le : nextSequence seq ≤ maxSequence := by
  simp only [nextSequence]
  split
  · decide
  · omega

/-- From any counter, at most three calls lead to one well below
`MaxInt32`. -/
theorem reach_low (hk : 0 < k) :
    ∃ w, (emitSys seq).Reach (Overlapping k) { world := w, calls := [] } ∧
      w.emitter.seq + 2 ≤ maxSequence := by
  let e : Emission := { type := "", subject := "", data := ∅ }
  have hstart : (emitSys seq).Reach (Overlapping k)
      { world := { emitter := { source := "", seq := seq } }, calls := [] } :=
    .init ⟨rfl, rfl, rfl⟩
  have h₁ := reach_emit seq e "" 0 hk hstart
  have h₂ := reach_emit seq e "" 0 hk h₁
  have h₃ := reach_emit seq e "" 0 hk h₂
  have hle := nextSequence_le seq
  by_cases hlow : nextSequence seq + 2 ≤ maxSequence
  · exact ⟨_, h₁, hlow⟩
  · by_cases hmax : nextSequence seq = maxSequence
    · refine ⟨_, h₂, ?_⟩
      simp only [World.emit, hmax]
      decide
    · have hbefore : nextSequence seq = maxSequence - 1 := by omega
      refine ⟨_, h₃, ?_⟩
      simp only [World.emit, hbefore]
      decide

end Overlap

/-- **When the stored events are in order.** Over all runs from a counter
at `seq` in which at most `k` calls are in progress at a time, the log
ascends up to restarts at 1 exactly if `k` is at most one. -/
theorem events_in_order_iff (seq k : Nat) :
    (∀ s, (emitSys seq).Reach (Overlapping k) s → InOrder s.log) ↔ k ≤ 1 := by
  constructor
  · intro hordered
    by_contra hk
    obtain ⟨w, hreach, hlow⟩ := reach_low seq (show 0 < k by omega)
    obtain ⟨acts, hrun⟩ := emit_crossed seq (show 1 < k by omega) hlow
    obtain ⟨s, hs, hlog⟩ := hreach.of_run_map hrun
    have hchain := (hordered s hs).ascending
    rw [hlog, List.isChain_append] at hchain
    have hpair := (List.isChain_cons_cons.mp hchain.2.1).1
    rcases hpair with hlt | ⟨hmax, hone⟩
    · omega
    · rw [← hmax] at hlow
      have : maxSequence = 2 := by omega
      cases this
  · intro hk s h
    refine inOrder_of_isChain (alone_reach (h.mono ?_)).chain
    intro s a hok
    cases a with
    | start e => exact Nat.lt_of_lt_of_le hok hk
    | step => trivial

/-- Two providers finish at once: the second to draw is the first to
append. And where the numbers restart, both draw 1. -/
theorem events_out_of_order :
    let e : Emission := { type := "submission.completed", subject := "sub", data := ∅ }
    let start (seq : Nat) : Emitting :=
      { world := { emitter := { source := "gw", seq := seq } }, calls := [] }
    ((emitSys 0).run (fun _ _ => True)
        [.start e, .start e, .step 0 "" 0, .step 1 "" 0, .step 1 "b" 0, .step 0 "a" 0]
        (start 0)).map Emitting.log = some [2, 1] ∧
    ((emitSys maxSequence).run (fun _ _ => True)
        [.start e, .start e, .step 0 "" 0, .step 1 "" 0, .step 0 "" 0, .step 0 "" 0,
          .step 1 "" 0, .step 1 "" 0, .step 0 "a" 0, .step 0 "b" 0]
        (start maxSequence)).map Emitting.log = some [1, 1] := by
  decide

end Scintx.Orchestrator
