/-
Scintx.Server.Reads — the handlers that read one record
(`internal/server/server.go`).

They all go one way: a call on the store that fails is answered 500, a
record that is not there 404, and else the record is the body of a 200
(`answerWith`).
-/
import Scintx.Server.Handlers

namespace Scintx.Server

open Scintx.Lib Scintx.Api Scintx.Store

/-- The body of a 200, or another answer. -/
abbrev Answer (α : Type) := Except Response α

variable {α : Type}

/-- The answer to a getter: `storeErr` is the failure of its call. -/
def answerWith (storeErr : Option String) (missing : String) (found : Option α) : Answer α :=
  match storeErr with
  | some e => .error (writeProblem 500 "store_error" e)
  | none =>
    match found with
    | none => .error (writeProblem 404 "not_found" missing)
    | some v => .ok v

theorem answerWith_ok {storeErr : Option String} {missing : String} {found : Option α} {v : α} :
    answerWith storeErr missing found = .ok v ↔ storeErr = none ∧ found = some v := by
  cases storeErr <;> cases found <;> simp [answerWith]

def getSubmission (storeErr : Option String) (s : MemoryStore) (id : String) :
    Answer Submission :=
  answerWith storeErr "submission not found" (s.getSubmission id)

def getDecision (storeErr : Option String) (s : MemoryStore) (id : String) :
    Answer PolicyDecision :=
  answerWith storeErr "decision not found" (s.getDecision id)

end Scintx.Server
