/-
Scintx.Orchestrator.World — what all runs of a gateway share: the store,
the event emitter and the result cache (`internal/scintx/events.go`,
`cache.go`, `cache_key.go`).

A cache backend holds JSON, so what it is given loses its submission id
and its cache record, and what it gives back is materialised for the
submission that asks. Whether a lookup hits is the backend's affair
(entries expire, servers fail), so an answer is an input of the run that
asks; `cache` records what the cache was given.
-/
import Scintx.Api.Matching
import Scintx.Store.Artifacts

namespace Scintx.Orchestrator

open Scintx.Lib Scintx.Api Scintx.Store

/-! ## Events -/

structure EventEmitter where
  source : String
  /-- The atomic counter. -/
  seq : Nat
  deriving DecidableEq

/-- `math.MaxInt32`. -/
def maxSequence : Nat := 2147483647

/-- The counter after one more event, which is that event's sequence
number: past `maxSequence` it starts again at 1. -/
def nextSequence (seq : Nat) : Nat :=
  let s := (seq + 1) % 18446744073709551616
  if maxSequence < s then 1 else s

/-- What a caller passes to `Emit`. -/
structure Emission where
  type : String
  subject : String
  data : GoMap AnyValue
  deriving DecidableEq

structure World where
  store : MemoryStore := {}
  emitter : EventEmitter := { source := "", seq := 0 }
  /-- Templates by cache key. -/
  cache : GoMap ProviderResult := ∅

def World.setJobs (w : World) (jobs : JobTable) : World :=
  { w with store := { w.store with jobs := jobs } }

/-- `Emit`. An event the store does not take is lost, its sequence number
is used up. -/
def World.emit (w : World) (storeErr : Option String) (randHex : String) (now : Time)
    (e : Emission) : World :=
  let seq := nextSequence w.emitter.seq
  let event : CloudEvent :=
    { id := "evt_" ++ randHex
      source := w.emitter.source
      type := e.type
      subject := e.subject
      time := now
      data := e.data
      sequence := seq }
  { w with
    emitter := { w.emitter with seq := seq }
    store := if storeErr = none then w.store.appendEvent event else w.store }

/-! ## The result cache -/

section Given

variable [GoStd]

def artifactFingerprint (a : Artifact) : String :=
  let purl :=
    match a.purl with
    | none => []
    | some p =>
      if p = "" then []
      else
        match canonicalPurl p with
        | .ok cp => ["purl=" ++ cp]
        | .error _ => ["purl=" ++ p]
  let digests := (GoMap.sortedKeys a.digests).map fun k =>
    "digest." ++ k ++ "=" ++ (a.digests.lookup k).getD ""
  let content :=
    match a.contentRef with
    | none => []
    | some ref => if ref.uri = "" then [] else ["content=" ++ ref.uri]
  let parts := purl ++ digests ++ content
  if parts = [] then "empty" else join parts ";"

def resultCacheKey (providerID capabilityID : String) (artifact : Artifact) : String :=
  let raw := join [providerID, capabilityID, artifactFingerprint artifact] "|"
  "scintx:result:v1:" ++ hexEncode (GoStd.sha256 (bytesOf raw))

end Given

/-- `MarshalResult`: what a backend keeps of a result. -/
def marshalResult (r : ProviderResult) : ProviderResult :=
  { cloneJSON r with submissionID := "", cache := none }

def materializeCachedResult (cached : ProviderResult) (submissionID randHex : String)
    (now : Time) (ttl : Duration) : ProviderResult :=
  let out := cloneJSON cached
  { out with
    id := "res_" ++ randHex
    submissionID := submissionID
    cache := some
      { hit := true
        originalResultID := out.id
        validUntil := some (now + ttl)
        freshnessBasis := "provider_result_cache" } }

end Scintx.Orchestrator
