/-
Scintx.Auth.Middleware — the gate in front of every handler
(`internal/auth/middleware.go`).

The verifier needs the body to check a signature, so the middleware
READS the body and puts what it read back in its place. It reads through
an `io.LimitReader`, hence what the handler finds may be the start of
what the client sent, with nothing to tell.
-/
import Scintx.Auth.Sign
import Scintx.Lib.Reader

namespace Scintx.Auth

open Scintx.Lib Scintx.Api

/-- A request as it comes in: what its head says, and its body unread. -/
structure Inbound where
  head : Request
  body : Stream

/-- How a request ends: a handler ran, the gate answered, or the verifier
panicked, which drops the connection. -/
inductive Handled (α : Type) where
  | served (answer : α)
  | problem (headers : List (String × String)) (details : ProblemDetails)
  | panicked

def Config.enabled (cfg : Config) : Bool := cfg.profiles ≠ []

/-- `NewVerifier` builds one only for a configuration that is enabled. -/
structure Verifier where
  cfg : Config
  enabled : cfg.enabled = true

def isPublicPath (path : String) : Bool :=
  path = "/v1/.well-known/scintx" || path = "/.well-known/scintx"

/-- `33<<20`. -/
def authBodyLimit : Nat := 34603008

/-- The body as far as it is read, and the request with that body. -/
def readBody (r : Inbound) : Except ReadFailure (List UInt8 × Inbound) :=
  match (r.body.limit authBodyLimit).readAll with
  | .error e => .error e
  | .ok body => .ok (body, { r with body := { bytes := body } })

def writeAuthProblem {α : Type} (status : Nat) (title detail : String) : Handled α :=
  .problem
    [("Content-Type", "application/problem+json"),
      ("WWW-Authenticate", "HMAC-SHA256 realm=\"scintx\", Bearer realm=\"scintx\"")]
    (problemDetails status title detail)

section Given

variable [GoStd]

def verifyProfile (cfg : Config) (p : Profile) (req : Request) (body : List UInt8) (now : Time) :
    Except Failure Unit :=
  match p with
  | .hmac => verifyHMAC cfg req body now
  | .bearer => verifyBearer cfg req

def Profile.label : Profile → String
  | .hmac => "hmac: "
  | .bearer => "bearer: "

/-- The loop of `verify`: the first profile that accepts, or the texts of
all of them. -/
def verifyProfiles (cfg : Config) (req : Request) (body : List UInt8) (now : Time) :
    List Profile → (errs : List String) → Except Failure Unit
  | [], errs =>
    if errs = [] then .error (.rejected "no auth profile configured")
    else .error (.rejected (join errs "; "))
  | p :: ps, errs =>
    match verifyProfile cfg p req body now with
    | .ok () => .ok ()
    | .error .panic => .error .panic
    | .error (.rejected text) => verifyProfiles cfg req body now ps (errs ++ [p.label ++ text])

def Verifier.verify (v : Verifier) (req : Request) (body : List UInt8) (now : Time) :
    Except Failure Unit :=
  verifyProfiles v.cfg req body now v.cfg.profiles []

/-- `Middleware` around a handler. -/
def middleware {α : Type} (v : Option Verifier) (now : Time) (next : Inbound → α) (r : Inbound) :
    Handled α :=
  match v with
  | none => .served (next r)
  | some v =>
    if isPublicPath r.head.path then .served (next r)
    else
      match readBody r with
      | .error _ => writeAuthProblem 400 "invalid_request" "failed to read body"
      | .ok (body, r) =>
        match v.verify r.head body now with
        | .ok () => .served (next r)
        | .error (.rejected text) => writeAuthProblem 401 "unauthorized" text
        | .error .panic => .panicked

/-! ## What passes the gate -/

/-- A request that passes reaches the handler unread, or with what was
read of it. -/
theorem middleware_served {α : Type} {v : Verifier} {now : Time} {next : Inbound → α}
    {r : Inbound} {answer : α} (h : middleware (some v) now next r = .served answer) :
    (isPublicPath r.head.path = true ∧ answer = next r) ∨
      isPublicPath r.head.path = false ∧ ∃ body, (r.body.limit authBodyLimit).readAll = .ok body ∧
        answer = next { r with body := { bytes := body } } := by
  simp only [middleware] at h
  split at h
  · rename_i hpub
    cases h
    exact .inl ⟨hpub, rfl⟩
  · rename_i hpub
    refine .inr ⟨by simpa using hpub, ?_⟩
    unfold readBody at h
    cases hread : (r.body.limit authBodyLimit).readAll with
    | error e =>
      rw [hread] at h
      cases h
    | ok body =>
      rw [hread] at h
      simp only at h
      split at h
      · cases h
        exact ⟨body, rfl, rfl⟩
      · cases h
      · cases h

end Given

end Scintx.Auth
