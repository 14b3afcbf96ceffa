/-
Scintx.Server.Handlers — the handlers that change submissions: create,
resume and adjudicate (`internal/server/server.go`).

A handler is a thread: `Handler` is where it stands, `Handler.step` makes
its next call on the store or on the dispatcher. The dispatcher is an
interface (`Dispatcher`): in one process a pool with a semaphore, across
processes a queue in the store. `Submit` is `Reserve`, `Commit` and, if
that failed, `Release`, a step each.

A request arrives decoded. Its fingerprint is an argument; so are the
random part of ids, clock readings, and the failures of calls.
-/
import Scintx.Orchestrator.Adjudicate
import Scintx.Orchestrator.Process
import Scintx.Workers.LocalPool

namespace Scintx.Server

open Scintx.Lib Scintx.Api Scintx.Store Scintx.Orchestrator Scintx.Workers

/-! ## Dispatchers -/

/-- `workers.Dispatcher`; a token is named by a number. -/
structure Dispatcher (σ : Type) where
  reserve : (ctxErr : Option String) → σ → World → Except DispatchError Nat × σ
  commit : (now : Time) → (tok : Nat) → (subID : String) → σ → World →
    Except DispatchError Unit × σ × World
  release : (tok : Nat) → σ → σ

/-! ## Answers -/

inductive Payload where
  | problem (details : ProblemDetails)
  | submission (sub : Submission)
  | decision (dec : PolicyDecision)

structure Response where
  status : Nat
  headers : List (String × String)
  payload : Payload

def writeProblem (status : Nat) (title detail : String) : Response where
  status := status
  headers := [("Content-Type", "application/problem+json")]
  payload := .problem (problemDetails status title detail)

def writeBackpressure (detail : String) : Response :=
  let r := writeProblem 429 "capacity_exceeded" detail
  { r with headers := ("Retry-After", "2") :: r.headers }

def writeAccepted (headers : List (String × String)) (sub : Submission) : Response where
  status := 202
  headers := headers ++ [("Content-Type", "application/json")]
  payload := .submission sub

/-- The answer to an error of the dispatcher. The error of a context is
its cancellation or its deadline. -/
def dispatchProblem (capacityDetail : String) : DispatchError → Response
  | .backpressure => writeBackpressure capacityDetail
  | .poolClosed | .context _ =>
    writeProblem 503 "shutting_down" "server is shutting down; retry later"
  | e => writeProblem 500 "dispatch_error" e.text

/-- The answer to an error of `Adjudicate`. -/
def adjudicateProblem (e : AdjudicateError) : Response :=
  match e with
  | .notFound => writeProblem 404 "not_found" e.text
  | .invalidDecision => writeProblem 422 "invalid_adjudication" e.text
  | .invalidState _ => writeProblem 409 "adjudicate_conflict" e.text
  | .other _ => writeProblem 500 "adjudicate_error" e.text

/-! ## Requests -/

structure CreateRequest where
  schemaVersion : String := ""
  artifact : Artifact
  requestedCapabilities : List String := []
  policyRef : Option String := none
  idempotencyKey : String := ""

/-- The checks of a create request: the request with its defaults, or the
answer. -/
def checkCreate [GoStd] (req : CreateRequest) : Except Response CreateRequest :=
  let req := if req.schemaVersion = "" then { req with schemaVersion := "1.0.0" } else req
  if req.artifact.purl = none ∧ req.artifact.digests = ∅ ∧ req.artifact.contentRef = none then
    .error (writeProblem 422 "invalid_artifact"
      "artifact must have at least one of purl, digests, or content_ref+digests")
  else if req.artifact.contentRef ≠ none ∧ req.artifact.digests = ∅ then
    .error (writeProblem 422 "invalid_artifact" "content_ref without digests is not allowed in v1")
  else
    match req.artifact.purl with
    | none => .ok req
    | some p =>
      match canonicalPurl p with
      | .error e => .error (writeProblem 422 "invalid_purl" e)
      | .ok cp => .ok { req with artifact := { req.artifact with purl := some cp } }

/-- The record of a new submission. -/
def newSubmission (req : CreateRequest) (id : String) (now : Time) : Submission where
  id := id
  schemaVersion := req.schemaVersion
  artifact := req.artifact
  requestedCapabilities := req.requestedCapabilities
  policyRef := req.policyRef
  status := .accepted
  createdAt := now

/-! ## Threads -/

inductive Handler where
  -- createSubmission
  | createReserve (key hash : String) (sub : Submission)
  | createPut (tok : Nat) (key hash : String) (sub : Submission)
  | createCommit (tok : Nat) (key : String) (sub : Submission)
  | createAbandon (tok : Nat) (key : String) (id : String) (answer : Response)
  | createRelease (tok : Nat) (answer : Response)
  -- resumeSubmission
  | resumeClaim (id : String)
  | resumeRefused (id : String)
  | resumeReserve (id : String)
  | resumeCommit (tok : Nat) (id : String)
  | resumeRelease (tok : Nat) (id : String) (err : DispatchError)
  | resumeUnmark (id : String) (err : DispatchError)
  | resumeRead (id : String)
  -- adjudicateSubmission
  | adjudicateGet (id : String) (req : AdjudicateRequest)
  | adjudicatePrior (sub : Submission) (priorID : String) (req : AdjudicateRequest)
  | adjudicatePutDecision (sub : Submission) (prior dec : PolicyDecision) (req : AdjudicateRequest)
  | adjudicatePutSubmission (sub : Submission) (prior dec : PolicyDecision)
      (req : AdjudicateRequest)
  | adjudicateEmit (sub : Submission) (prior dec : PolicyDecision) (req : AdjudicateRequest)
  | answered (answer : Response)

/-- What is chosen at one step of a handler. -/
structure HandlerChoice where
  ctxErr : Option String := none
  storeErr : Option String := none
  now : Time := 0
  randHex : String := ""

def location (id : String) : List (String × String) :=
  [("Location", "/v1/submissions/" ++ id)]

def resolvedEvent (sub : Submission) (prior dec : PolicyDecision) (req : AdjudicateRequest) :
    Emission :=
  submissionEvent "policy-decision.resolved" sub.id
    [("decision_id", dec.id), ("decision", dec.decision.text), ("prior_decision_id", prior.id),
      ("prior_decision", prior.decision.text), ("source", req.source), ("actor", req.actor)]

variable {σ : Type}

def Handler.step (d : Dispatcher σ) (ch : HandlerChoice) (p : σ) (w : World) :
    Handler → Option (σ × World × Handler)
  | .createReserve key hash sub =>
    match d.reserve ch.ctxErr p w with
    | (.error e, p) =>
      some (p, w, .answered (dispatchProblem "worker pool at capacity; retry later" e))
    | (.ok tok, p) => some (p, w, .createPut tok key hash sub)
  | .createPut tok key hash sub =>
    match ch.storeErr with
    | some e => some (p, w, .createRelease tok (writeProblem 500 "store_error" e))
    | none =>
      match w.store.putSubmissionIdempotent key hash sub with
      | (.error _, _) =>
        some (p, w, .createRelease tok (writeProblem 409 "idempotency_conflict"
          "Idempotency-Key reused with a different request body"))
      | (.ok (sub, false), _) =>
        some (p, w, .createRelease tok (writeAccepted (location sub.id) sub))
      | (.ok (sub, true), store) => some (p, { w with store := store }, .createCommit tok key sub)
  | .createCommit tok key sub =>
    match d.commit ch.now tok sub.id p w with
    | (.error e, p, w) =>
      some (p, w, .createAbandon tok key sub.id
        (dispatchProblem "worker pool at capacity; retry later" e))
    | (.ok (), p, w) => some (p, w, .answered (writeAccepted (location sub.id) sub))
  | .createAbandon tok key id answer =>
    -- an abandonment that fails is only logged
    let store := if ch.storeErr = none then (w.store.abandonSubmission id key).2 else w.store
    some (p, { w with store := store }, .createRelease tok answer)
  | .createRelease tok answer => some (d.release tok p, w, .answered answer)
  | .resumeClaim id =>
    match ch.storeErr with
    | some e => some (p, w, .answered (writeProblem 409 "resume_failed" e))
    | none =>
      match w.store.claimResume id with
      | (.error _, _) => some (p, w, .resumeRefused id)
      | (.ok _, store) => some (p, { w with store := store }, .resumeReserve id)
  | .resumeRefused id =>
    let detail := match ch.storeErr with
      | some e => e
      | none =>
        match w.store.getSubmission id with
        | none => "submission not found"
        | some sub => "submission is not deferred (status=" ++ sub.status.text ++ ")"
    some (p, w, .answered (writeProblem 409 "resume_failed" detail))
  | .resumeReserve id =>
    match d.reserve ch.ctxErr p w with
    | (.error e, p) => some (p, w, .resumeUnmark id e)
    | (.ok tok, p) => some (p, w, .resumeCommit tok id)
  | .resumeCommit tok id =>
    match d.commit ch.now tok id p w with
    | (.error e, p, w) => some (p, w, .resumeRelease tok id e)
    | (.ok (), p, w) => some (p, w, .resumeRead id)
  | .resumeRelease tok id e => some (d.release tok p, w, .resumeUnmark id e)
  | .resumeUnmark id e =>
    let store := if ch.storeErr = none then w.store.releaseResume id else w.store
    some (p, { w with store := store },
      .answered (dispatchProblem "worker pool at capacity; retry resume later" e))
  | .resumeRead id =>
    match (if ch.storeErr = none then w.store.getSubmission id else none) with
    | none =>
      some (p, w, .answered
        (writeProblem 500 "store_error" "resume enqueued but submission missing"))
    | some sub => some (p, w, .answered (writeAccepted [] sub))
  | .adjudicateGet id req =>
    match checkAdjudication req with
    | .error e => some (p, w, .answered (adjudicateProblem e))
    | .ok () =>
      match ch.storeErr with
      | some e => some (p, w, .answered (adjudicateProblem (.other e)))
      | none =>
        match w.store.getSubmission id with
        | none => some (p, w, .answered (adjudicateProblem .notFound))
        | some sub =>
          match adjudicable sub with
          | .error e => some (p, w, .answered (adjudicateProblem e))
          | .ok priorID => some (p, w, .adjudicatePrior sub priorID req)
  | .adjudicatePrior sub priorID req =>
    match ch.storeErr with
    | some e => some (p, w, .answered (adjudicateProblem (.other e)))
    | none =>
      match w.store.getDecision priorID with
      | none => some (p, w, .answered (adjudicateProblem (.invalidState "prior decision missing")))
      | some prior =>
        some (p, w, .adjudicatePutDecision sub prior
          (adjudication req sub prior ch.randHex ch.now) req)
  | .adjudicatePutDecision sub prior dec req =>
    match ch.storeErr with
    | some e => some (p, w, .answered (adjudicateProblem (.other e)))
    | none =>
      some (p, { w with store := w.store.putDecision dec },
        .adjudicatePutSubmission { sub with decisionID := some dec.id } prior dec req)
  | .adjudicatePutSubmission sub prior dec req =>
    match ch.storeErr with
    | some e => some (p, w, .answered (adjudicateProblem (.other e)))
    | none =>
      some (p, { w with store := w.store.putSubmission sub }, .adjudicateEmit sub prior dec req)
  | .adjudicateEmit sub prior dec req =>
    some (p, w.emit ch.storeErr ch.randHex ch.now (resolvedEvent sub prior dec req),
      .answered
        { status := 201, headers := [("Content-Type", "application/json")]
          payload := .decision dec })
  | .answered _ => none

end Scintx.Server
