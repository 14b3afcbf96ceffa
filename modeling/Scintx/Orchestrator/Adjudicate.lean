/-
Scintx.Orchestrator.Adjudicate — a resolution shared back by a consumer
(`Orchestrator.Adjudicate`, `internal/scintx/orchestrator.go`).

`Adjudicate` reads the submission and its current decision, files a new
decision that names the one it replaces, and points the submission at
it: four store calls. What is computed between them is here; the calls
are steps of the handler.

Left out: the anonymous notice to providers, which touches no store.
-/
import Scintx.Api.Types

namespace Scintx.Orchestrator

open Scintx.Lib Scintx.Api

inductive AdjudicateError where
  | notFound
  | invalidState (why : String)
  | invalidDecision
  | other (text : String)
  deriving DecidableEq

def AdjudicateError.text : AdjudicateError → String
  | .notFound => "submission not found"
  | .invalidState why => "submission cannot be adjudicated in its current state: " ++ why
  | .invalidDecision => "adjudication decision must be allow or deny"
  | .other text => text

/-- The check of the request alone. -/
def checkAdjudication (req : AdjudicateRequest) : Except AdjudicateError Unit :=
  if req.decision ≠ .allow ∧ req.decision ≠ .deny then .error .invalidDecision else .ok ()

/-- The check of the submission that was read: the id of the decision to
resolve. -/
def adjudicable (sub : Submission) : Except AdjudicateError String :=
  if sub.status ≠ .completed then
    .error (.invalidState ("status=" ++ sub.status.text ++ " (need completed)"))
  else
    match sub.decisionID with
    | none => .error (.invalidState "no prior policy decision to resolve")
    | some id =>
      if id = "" then .error (.invalidState "no prior policy decision to resolve") else .ok id

theorem adjudicable_ok {sub : Submission} {id : String} (h : adjudicable sub = .ok id) :
    sub.status = .completed := by
  unfold adjudicable at h
  split at h
  · cases h
  · rename_i hs
    simpa using hs

/-- A text under a key, unless it is empty. -/
def insertText (key value : String) (m : GoMap AnyValue) : GoMap AnyValue :=
  if value = "" then m else m.insert key (.str value)

/-- The extensions of the new decision. The request's own are added where
no key of the gateway stands. -/
def adjudicationExtensions (req : AdjudicateRequest) (prior : PolicyDecision) : GoMap AnyValue :=
  let ext : GoMap AnyValue :=
    ((Finmap.singleton "origin" (.str "consumer")).insert "prior_decision_id"
      (.str prior.id)).insert "prior_decision" (.str prior.decision.text)
  let ext := insertText "actor" req.actor ext
  let ext := insertText "rationale" req.rationale ext
  let ext := insertText "source" req.source ext
  let ext := match req.expiresAt with
    | none => ext
    | some t => ext.insert "expires_at" (.str t)
  ext ∪ req.extensions

def firstResultID (ids : List String) : String := ids.head?.getD ""

def adjudicationMessage (req : AdjudicateRequest) : String :=
  if req.rationale ≠ "" then req.rationale
  else if req.source ≠ "" then
    "Consumer resolution from " ++ req.source ++ ": " ++ req.decision.text
  else "Consumer shared final resolution: " ++ req.decision.text

/-- The decision `Adjudicate` files. -/
def adjudication (req : AdjudicateRequest) (sub : Submission) (prior : PolicyDecision)
    (randHex : String) (now : Time) : PolicyDecision where
  id := "dec_" ++ randHex
  submissionID := sub.id
  decision := req.decision
  policy := prior.policy
  evaluatedAt := now
  inputResultIDs := prior.inputResultIDs
  reasons :=
    [{ code := "consumer_adjudication"
       resultID :=
        if firstResultID prior.inputResultIDs = "" then "none"
        else firstResultID prior.inputResultIDs
       message := adjudicationMessage req }]
  extensions := adjudicationExtensions req prior

/-! ## The decision a decision replaces -/

/-- `extensions.prior_decision_id`. -/
def priorDecisionID (d : PolicyDecision) : Option String :=
  match d.extensions.lookup "prior_decision_id" with
  | some (.str id) => some id
  | _ => none

theorem lookup_insertText {key k value : String} {m : GoMap AnyValue} (h : k ≠ key) :
    (insertText key value m).lookup k = m.lookup k := by
  unfold insertText
  split
  · rfl
  · exact Finmap.lookup_insert_of_ne m h

/-- No extension of the request takes the place of the link. -/
theorem priorDecisionID_adjudication (req : AdjudicateRequest) (sub : Submission)
    (prior : PolicyDecision) (randHex : String) (now : Time) :
    priorDecisionID (adjudication req sub prior randHex now) = some prior.id := by
  have hlookup : (adjudicationExtensions req prior).lookup "prior_decision_id" =
      some (.str prior.id) := by
    unfold adjudicationExtensions
    have hown {ext : GoMap AnyValue} (h : ext.lookup "prior_decision_id" = some (.str prior.id)) :
        (ext ∪ req.extensions).lookup "prior_decision_id" = some (.str prior.id) := by
      rw [Finmap.lookup_union_left (Finmap.mem_of_lookup_eq_some h), h]
    refine hown ?_
    have htexts {ext : GoMap AnyValue} (h : ext.lookup "prior_decision_id" = some (.str prior.id)) :
        (insertText "source" req.source (insertText "rationale" req.rationale
          (insertText "actor" req.actor ext))).lookup "prior_decision_id" =
          some (.str prior.id) := by
      rw [lookup_insertText (by decide), lookup_insertText (by decide),
        lookup_insertText (by decide), h]
    have hbase : (((Finmap.singleton "origin" (.str "consumer")).insert "prior_decision_id"
        (.str prior.id)).insert "prior_decision" (.str prior.decision.text) :
          GoMap AnyValue).lookup "prior_decision_id" = some (.str prior.id) := by
      rw [Finmap.lookup_insert_of_ne _ (by decide), Finmap.lookup_insert]
    cases req.expiresAt with
    | none => exact htexts hbase
    | some t =>
      exact (Finmap.lookup_insert_of_ne _ (by decide)).trans (htexts hbase)
  rw [priorDecisionID, adjudication, hlookup]

end Scintx.Orchestrator
