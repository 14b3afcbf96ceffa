/-
Scintx.Lib.Reader — byte streams that may fail, and the two ways of
bounding one.

A stream is what reading it to the end yields: its bytes, then the end
or a failure. `limit` is `io.LimitReader`: past the bound it reports the
END of the stream, so a reader cannot tell a stream that was cut from
one that was shorter. `maxBytes` is `http.MaxBytesReader`: past the bound
it FAILS. `readAll_limit_iff` and `readAll_maxBytes` are what that
difference means for a reader of the whole stream.
-/
import Mathlib.Data.List.Basic

namespace Scintx.Lib

inductive ReadFailure where
  /-- `*http.MaxBytesError`. -/
  | maxBytes (limit : Int)
  | other (text : String)
  deriving DecidableEq

structure Stream where
  bytes : List UInt8
  failure : Option ReadFailure := none
  deriving DecidableEq

namespace Stream

/-- `io.ReadAll`. -/
def readAll (s : Stream) : Except ReadFailure (List UInt8) :=
  match s.failure with
  | none => .ok s.bytes
  | some e => .error e

/-- `io.LimitReader`. -/
def limit (s : Stream) (n : Nat) : Stream :=
  if n ≤ s.bytes.length then { bytes := s.bytes.take n } else s

/-- `http.MaxBytesReader`. A negative bound counts as 0. -/
def maxBytes (s : Stream) (n : Int) : Stream :=
  if (max n 0) < s.bytes.length then
    { bytes := s.bytes.take n.toNat, failure := some (.maxBytes n) }
  else s

theorem readAll_ok {s : Stream} {bs : List UInt8} (h : s.readAll = .ok bs) :
    s = { bytes := bs } := by
  obtain ⟨bytes, failure⟩ := s
  cases failure with
  | none =>
    cases h
    rfl
  | some e => cases h

/-- What a reader of a limited stream gets is the start of it. -/
theorem readAll_limit {s : Stream} {n : Nat} {bs : List UInt8}
    (h : (s.limit n).readAll = .ok bs) : bs = s.bytes.take n := by
  unfold limit at h
  split at h
  · cases h
    rfl
  · rename_i hlen
    rw [readAll_ok h, List.take_of_length_le (by simpa [readAll_ok h] using Nat.le_of_not_le hlen)]

/-- It is all of it exactly when that fits. -/
theorem readAll_limit_iff {s : Stream} {n : Nat} {bs : List UInt8}
    (h : (s.limit n).readAll = .ok bs) : bs = s.bytes ↔ s.bytes.length ≤ n := by
  rw [readAll_limit h]
  constructor
  · intro hall
    have hlen := congrArg List.length hall
    rw [List.length_take] at hlen
    omega
  · exact List.take_of_length_le

theorem readAll_limit_long {s : Stream} {n : Nat} (h : n ≤ s.bytes.length) :
    (s.limit n).readAll = .ok (s.bytes.take n) := by
  simp [limit, h, readAll]

theorem readAll_maxBytes {s : Stream} {n : Int} (h : s.bytes.length ≤ n) :
    (s.maxBytes n).readAll = s.readAll := by
  have hnot : ¬ (max n 0) < s.bytes.length := by omega
  rw [maxBytes, if_neg hnot]

end Stream

end Scintx.Lib
