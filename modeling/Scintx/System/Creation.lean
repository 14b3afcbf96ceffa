/-
Scintx.System.Creation — createSubmission handlers by themselves: any
number of them, on one in-memory store and one dispatcher, in any
interleaving (`internal/server/server.go`, `internal/scintx/fingerprint.go`).

A creator is a request, the submission id drawn for it, and where its
handler stands. Its calls are those of `Handler.step`. Around the
creators the dispatcher may change at will (a slot gets free, the pool is
closed), so may the job rows, and a worker may rewrite a submission whose
job was committed.

The LOG is not part of the program: it lists what the calls have done,
latest first, so that "before" and "exactly once" can be said.
-/
import Scintx.System.Local
import Scintx.System.Queue

namespace Scintx.System

open Scintx.Lib Scintx.Api Scintx.Store Scintx.Orchestrator Scintx.Workers Scintx.Server

/-! ## Fingerprints -/

/-- The canonical body of a create request. -/
structure IdempotencyPayload where
  schemaVersion : String
  artifact : Artifact
  requestedCapabilities : List String
  policyRef : Option String

section Given

variable [GoStd]

/-- `RequestFingerprint`. `marshal` is `json.Marshal`, which may fail. -/
def requestFingerprint (marshal : IdempotencyPayload → Option (List UInt8))
    (schemaVersion : String) (artifact : Artifact) (caps : List String)
    (policyRef : Option String) : String :=
  let payload : IdempotencyPayload :=
    { schemaVersion := schemaVersion, artifact := artifact
      requestedCapabilities := sortStrings caps, policyRef := policyRef }
  hexEncode (GoStd.sha256 ((marshal payload).getD (bytesOf "\x7b\x7d")))

def fingerprint (marshal : IdempotencyPayload → Option (List UInt8)) (req : CreateRequest) :
    String :=
  requestFingerprint marshal req.schemaVersion req.artifact req.requestedCapabilities
    req.policyRef

/-- A digest that is never empty makes fingerprints that never are. -/
theorem fingerprint_ne_empty (hsha : ∀ m, GoStd.sha256 m ≠ [])
    (marshal : IdempotencyPayload → Option (List UInt8)) (req : CreateRequest) :
    fingerprint marshal req ≠ "" := by
  unfold fingerprint requestFingerprint
  simp only
  generalize (marshal _).getD _ = raw
  intro h
  have hlist : (GoStd.sha256 raw).flatMap
      (fun b => [hexDigit (b.toNat / 16), hexDigit (b.toNat % 16)]) = [] :=
    String.ofList_injective h
  cases hraw : GoStd.sha256 raw with
  | nil => exact hsha raw hraw
  | cons b bs => simp [hraw] at hlist

end Given

/-! ## Dispatchers whose commit touches the job rows only -/

structure Admission (σ : Type) extends Dispatcher σ where
  commit_setJobs : ∀ now tok subID p w, ∃ jobs,
    (commit now tok subID p w).2.2 = w.setJobs jobs

def localAdmission : Admission LocalPool where
  toDispatcher := localDispatcher
  commit_setJobs _ _ _ _ w := ⟨w.store.jobs, rfl⟩

def queueAdmission : Admission QueuePool where
  toDispatcher := queueDispatcher
  commit_setJobs _ _ _ _ _ := ⟨_, rfl⟩

/-! ## The system -/

structure Creator where
  req : CreateRequest
  id : String
  handler : Handler

inductive CreationEvent where
  | created (key hash id : String)
  | committed (id : String)
  | abandoned (id : String)
  /-- A 202 was answered with this submission. -/
  | accepted (id : String)
  deriving DecidableEq

def CreationEvent.id : CreationEvent → String
  | created _ _ id | committed id | abandoned id | accepted id => id

structure CreationState (σ : Type) where
  pool : σ
  world : World
  creators : List Creator
  /-- What the calls have done, latest first. -/
  log : List CreationEvent

inductive CreationAction (σ : Type) where
  | request (req : CreateRequest) (id : String) (now : Time)
  -- a handler makes its next call
  | call (i : Nat) (ctxErr : Option String) (now : Time)
  -- what goes on around the handlers
  | dispatcher (p : σ)
  | jobs (jobs : JobTable)
  | process (sub : Submission)

/-- The submission a 202 answer names. -/
def acceptedID (answer : Response) : Option String :=
  match answer.payload with
  | .submission sub => if answer.status = 202 then some sub.id else none
  | _ => none

/-- What a call has done, from where the handler stood and stands. -/
def callEvents (store : MemoryStore) : Handler → Handler → List CreationEvent
  | .createPut _ key hash _, .createCommit _ _ sub => [.created key hash sub.id]
  | .createCommit _ _ sub, .answered _ => [.accepted sub.id, .committed sub.id]
  | .createAbandon _ key id _, _ =>
    if (store.abandonSubmission id key).1.isOk then [.abandoned id] else []
  | .createRelease _ answer, _ => (acceptedID answer).toList.map .accepted
  | _, _ => []

section Given

variable [GoStd] {σ : Type}

def creationStep (marshal : IdempotencyPayload → Option (List UInt8)) (d : Admission σ) :
    CreationAction σ → CreationState σ → Option (CreationState σ)
  | .request req id now, s =>
    if s.creators.any (·.id = id) then none
    else
      match checkCreate req with
      | .error _ => some s
      | .ok req =>
        let c : Creator :=
          { req := req, id := id
            handler := .createReserve req.idempotencyKey (fingerprint marshal req)
              (newSubmission req id now) }
        some { s with creators := s.creators ++ [c] }
  | .call i ctxErr now, s =>
    match s.creators[i]? with
    | none => none
    | some c =>
      (c.handler.step d.toDispatcher { ctxErr := ctxErr, now := now } s.pool s.world).map
        fun (pool, world, h) =>
          { pool := pool, world := world
            creators := s.creators.set i { c with handler := h }
            log := callEvents s.world.store c.handler h ++ s.log }
  | .dispatcher p, s => some { s with pool := p }
  | .jobs jobs, s => some { s with world := s.world.setJobs jobs }
  | .process sub, s =>
    if .committed sub.id ∈ s.log then
      some { s with world := { s.world with store := s.world.store.putSubmission sub } }
    else none

/-- Nothing has been requested of a store that was just made. -/
def creationSys (marshal : IdempotencyPayload → Option (List UInt8)) (d : Admission σ) :
    Sys (CreationState σ) (CreationAction σ) where
  init s := s.world.store = {} ∧ s.creators = [] ∧ s.log = []
  step := creationStep marshal d

end Given

/-! ## What a call can do -/

/-- A create handler of a request with this key and fingerprint, and of
this submission id. -/
def Creates (key hash id : String) : Handler → Prop
  | .createReserve k h sub | .createPut _ k h sub =>
    k = key ∧ h = hash ∧ sub.id = id ∧ sub.status = .accepted
  | .createCommit _ k sub => k = key ∧ sub.id = id
  | .createAbandon _ k i _ => k = key ∧ i = id
  | .createRelease _ _ | .answered _ => True
  | _ => False

section Calls

variable (store : MemoryStore) (key hash id : String)

/-- Every call of a create handler, with what it answers and logs. -/
inductive CreateCall : Handler → Handler → MemoryStore → List CreationEvent → Prop
  | refused {sub : Submission} {e : DispatchError} :
      CreateCall (.createReserve key hash sub)
        (.answered (dispatchProblem "worker pool at capacity; retry later" e)) store []
  | reserved {sub : Submission} {tok : Nat} :
      CreateCall (.createReserve key hash sub) (.createPut tok key hash sub) store []
  | conflict {tok : Nat} {sub : Submission} {existing : Stored Submission} (hkey : key ≠ "")
      (hbound : store.bound key = some existing) (hdiffer : Differs store key hash) :
      CreateCall (.createPut tok key hash sub)
        (.createRelease tok (writeProblem 409 "idempotency_conflict"
          "Idempotency-Key reused with a different request body")) store []
  | replay {tok : Nat} {sub : Submission} {existing : Stored Submission} (hkey : key ≠ "")
      (hbound : store.bound key = some existing) (hagree : ¬ Differs store key hash) :
      CreateCall (.createPut tok key hash sub)
        (.createRelease tok (writeAccepted (location existing.val.id) existing.val)) store []
  | create {tok : Nat} {sub : Submission} (hsub : sub.id = id) (hstatus : sub.status = .accepted)
      (hfree : key ≠ "" → store.bound key = none) :
      CreateCall (.createPut tok key hash sub) (.createCommit tok key (cloneJSON sub))
        (store.bindSubmission key hash sub) [.created key hash id]
  | commit {tok : Nat} {sub : Submission} {jobs : JobTable} (hsub : sub.id = id) :
      CreateCall (.createCommit tok key sub) (.answered (writeAccepted (location id) sub))
        { store with jobs := jobs } [.accepted id, .committed id]
  | commitFailed {tok : Nat} {sub : Submission} {jobs : JobTable} {answer : Response}
      (hsub : sub.id = id) :
      CreateCall (.createCommit tok key sub) (.createAbandon tok key id answer)
        { store with jobs := jobs } []
  | abandon {tok : Nat} {answer : Response} :
      CreateCall (.createAbandon tok key id answer) (.createRelease tok answer)
        (store.abandonSubmission id key).2
        (if (store.abandonSubmission id key).1.isOk then [.abandoned id] else [])
  | release {tok : Nat} {answer : Response} :
      CreateCall (.createRelease tok answer) (.answered answer) store
        ((acceptedID answer).toList.map .accepted)

end Calls

section Given

variable {σ : Type}

theorem Creates.call {d : Admission σ} {ch : HandlerChoice} (hstore : ch.storeErr = none)
    {key hash id : String} {p p' : σ} {w w' : World} {h h' : Handler}
    (hcreates : Creates key hash id h)
    (hstep : h.step d.toDispatcher ch p w = some (p', w', h')) :
    CreateCall w.store key hash id h h' w'.store (callEvents w.store h h') := by
  have hjobs : WritesJobs d.toDispatcher := d.commit_setJobs
  cases Handler.step_move hstep with
  | refused =>
    obtain ⟨rfl, rfl, rfl, -⟩ := hcreates
    exact .refused
  | reserved =>
    obtain ⟨rfl, rfl, rfl, -⟩ := hcreates
    exact .reserved
  | conflict tok sub hkey hbound hdiffers =>
    obtain ⟨rfl, rfl, -, -⟩ := hcreates
    exact .conflict hkey hbound hdiffers
  | replayed tok sub hkey hbound hagrees =>
    obtain ⟨rfl, rfl, -, -⟩ := hcreates
    exact .replay hkey hbound hagrees
  | created tok hash sub hfree =>
    obtain ⟨rfl, rfl, rfl, hstatus⟩ := hcreates
    exact .create rfl hstatus hfree
  | commitFailed key hcommit =>
    obtain ⟨rfl, rfl⟩ := hcreates
    obtain ⟨jobs, rfl⟩ := hjobs.commit hcommit
    exact .commitFailed rfl
  | committed key hcommit =>
    obtain ⟨rfl, rfl⟩ := hcreates
    obtain ⟨jobs, rfl⟩ := hjobs.commit hcommit
    exact .commit rfl
  | abandoned =>
    obtain ⟨rfl, rfl⟩ := hcreates
    exact .abandon
  | released => exact .release
  | notStored | notAbandoned => exact absurd hstore ‹_›
  | _ => exact hcreates.elim

theorem CreateCall.creates {store store' : MemoryStore} {key hash id : String} {h h' : Handler}
    {es : List CreationEvent} (hcreates : Creates key hash id h)
    (hcall : CreateCall store key hash id h h' store' es) : Creates key hash id h' := by
  cases hcall with
  | reserved => exact hcreates
  | create hsub => exact ⟨rfl, hsub⟩
  | commitFailed => exact ⟨rfl, rfl⟩
  | _ => trivial

end Given

end Scintx.System
