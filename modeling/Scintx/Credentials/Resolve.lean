/-
Scintx.Credentials.Resolve — where the tokens of providers are kept and
found (`credentials/resolve.go`, `file.go`, `keyring.go`, `spec.go`).

There are two places, the keyring of the operating system and a file.
`Get` looks in the keyring first; `Set` writes to the keyring and, only
if that fails, to the file. Either place may fail at any call, and a
failure of the keyring is not reported, so which place was written and
which one is read is decided by two failures that have nothing to do
with each other.

`Vault` is both places. Every operation takes the failures it meets as
an argument. The file is what its YAML says, and a write of it that
fails changes nothing.
-/
import Mathlib.Data.Finmap
import Scintx.Lib.GoStd

namespace Scintx.Credentials

open Scintx.Lib

inductive Source where
  | none
  | env
  | keyring
  | file
  deriving DecidableEq, Repr

structure ProviderCreds where
  token : String := ""
  user : String := ""
  deriving DecidableEq, Repr

structure Resolved where
  creds : ProviderCreds := {}
  source : Source
  deriving DecidableEq, Repr

structure Spec where
  tokenEnv : String
  userEnv : String

/-- The registered specs and the environment. -/
structure Host where
  specs : GoMap Spec := ∅
  getenv : String → String := fun _ => ""

def Host.lookup (h : Host) (id : String) : Option Spec :=
  h.specs.lookup (trimSpace id)

structure Vault where
  keyring : GoMap String := ∅
  /-- `none` if there is no file. -/
  file : Option (GoMap ProviderCreds) := none
  deriving DecidableEq

/-! ## Failures -/

/-- The failures of one file operation. -/
structure FileFault where
  /-- The path is not known, or the file cannot be read or parsed. -/
  load : Option String := none
  save : Option String := none
  /-- `os.Remove` fails. -/
  remove : Bool := false
  deriving DecidableEq, Repr

/-- The failures one call meets. -/
structure Faults where
  keyring : Option String := none
  file : FileFault := {}
  /-- Of the deletion in `Set`. -/
  stale : FileFault := {}
  deriving DecidableEq, Repr

/-- The file works; the keyring may not. -/
def Faults.FileWorks (f : Faults) : Prop :=
  f.file = {} ∧ f.stale = {}

instance (f : Faults) : Decidable f.FileWorks :=
  inferInstanceAs (Decidable (_ ∧ _))

/-! ## The keyring -/

def getFromKeyring (err : Option String) (v : Vault) (provider : String) :
    Except String (Option String) :=
  match err with
  | some e => .error e
  | none =>
    match v.keyring.lookup provider with
    | none => .ok none
    | some secret => .ok (if secret = "" then none else some secret)

def setInKeyring (err : Option String) (v : Vault) (provider token : String) :
    Except String Vault :=
  match err with
  | some e => .error e
  | none => .ok { v with keyring := v.keyring.insert provider token }

/-- A missing entry is no error. -/
def deleteFromKeyring (err : Option String) (v : Vault) (provider : String) :
    Except String Vault :=
  match err with
  | some e => .error e
  | none => .ok { v with keyring := v.keyring.erase provider }

/-! ## The file -/

/-- What the file says. -/
def Vault.doc (v : Vault) : GoMap ProviderCreds :=
  v.file.getD ∅

def loadFile (f : FileFault) (v : Vault) : Except String (GoMap ProviderCreds) :=
  match f.load with
  | some e => .error e
  | none => .ok v.doc

def saveFile (f : FileFault) (v : Vault) (doc : GoMap ProviderCreds) : Except String Vault :=
  match f.save with
  | some e => .error e
  | none => .ok { v with file := some doc }

def getFromFile (f : FileFault) (v : Vault) (provider : String) :
    Except String (Option ProviderCreds) := do
  let doc ← loadFile f v
  match doc.lookup provider with
  | none => .ok none
  | some c => .ok (if c.token = "" ∧ c.user = "" then none else some c)

def setInFile (f : FileFault) (v : Vault) (provider : String) (c : ProviderCreds) :
    Except String Vault := do
  let doc ← loadFile f v
  saveFile f v (doc.insert provider c)

def deleteFromFile (f : FileFault) (v : Vault) (provider : String) : Except String Vault := do
  let doc ← loadFile f v
  match doc.lookup provider with
  | none => .ok v
  | some _ =>
    let rest := doc.erase provider
    -- an empty file is removed, and that it could not be is not reported
    if rest = ∅ then .ok (if f.remove then v else { v with file := none })
    else saveFile f v rest

/-! ## `Get`, `Set` and `Clear` -/

def userFromFileOnly (f : FileFault) (v : Vault) (provider : String) : String :=
  match getFromFile f v provider with
  | .error _ => ""
  | .ok none => ""
  | .ok (some c) => c.user

/-- The token of the environment. -/
def fromEnv (h : Host) (provider : String) : Option ProviderCreds :=
  match h.lookup provider with
  | none => none
  | some spec =>
    if spec.tokenEnv = "" then none
    else
      let token := trimSpace (h.getenv spec.tokenEnv)
      let user := if spec.userEnv = "" then "" else trimSpace (h.getenv spec.userEnv)
      if token = "" then none else some { token := token, user := user }

def fromFile (f : FileFault) (v : Vault) (provider : String) : Except String Resolved :=
  match getFromFile f v provider with
  | .error e => .error e
  | .ok none => .ok { source := .none }
  | .ok (some c) =>
    .ok (if c.token = "" then { source := .none } else { creds := c, source := .file })

/-- `Get`. An error comes with no credentials. -/
def get (h : Host) (f : Faults) (v : Vault) (provider : String) : Except String Resolved :=
  let provider := trimSpace provider
  if provider = "" then .error "provider id required"
  else
    match fromEnv h provider with
    | some c => .ok { creds := c, source := .env }
    | none =>
      match getFromKeyring f.keyring v provider with
      | .ok (some token) =>
        .ok { creds := { token := token, user := userFromFileOnly f.file v provider }
              source := .keyring }
      -- a keyring that is not available is treated like one without a token
      | _ => fromFile f.file v provider

/-- What `Set` leaves and returns. -/
structure SetResult where
  vault : Vault
  source : Source
  err : Option String := none

def set (f : Faults) (v : Vault) (provider : String) (c : ProviderCreds) : SetResult :=
  let provider := trimSpace provider
  let c : ProviderCreds := { token := trimSpace c.token, user := trimSpace c.user }
  if provider = "" then { vault := v, source := .none, err := "provider id required" }
  else if c.token = "" then { vault := v, source := .none, err := "token required" }
  else
    match setInKeyring f.keyring v provider c.token with
    | .ok v =>
      -- the failure of this deletion is dropped
      let v := (deleteFromFile f.stale v provider).toOption.getD v
      if c.user = "" then { vault := v, source := .keyring }
      else
        match setInFile f.file v provider { user := c.user } with
        | .error e =>
          { vault := v, source := .keyring
            err := "token in keyring, but failed to save user: " ++ e }
        | .ok v => { vault := v, source := .keyring }
    | .error _ =>
      match setInFile f.file v provider c with
      | .error e =>
        { vault := v, source := .none, err := "keyring unavailable and file store failed: " ++ e }
      | .ok v => { vault := v, source := .file }

/-- The error of an operation. -/
def errorOf : Except String Vault → Option String
  | .error e => some e
  | .ok _ => none

/-- `Clear`: both places are tried, the first failure is returned. -/
def clear (f : Faults) (v : Vault) (provider : String) : Vault × Option String :=
  let provider := trimSpace provider
  if provider = "" then (v, "provider id required")
  else
    let fromKeyring := deleteFromKeyring f.keyring v provider
    let v := fromKeyring.toOption.getD v
    let fromFile := deleteFromFile f.file v provider
    (fromFile.toOption.getD v, (errorOf fromKeyring).or (errorOf fromFile))

/-! ## Histories -/

inductive Call where
  | set (f : Faults) (provider : String) (c : ProviderCreds)
  | clear (f : Faults) (provider : String)

def Call.provider : Call → String
  | .set _ provider _ | .clear _ provider => trimSpace provider

def Call.apply (v : Vault) : Call → Vault
  | .set f provider c => (Credentials.set f v provider c).vault
  | .clear f provider => (Credentials.clear f v provider).1

def Vault.after (v : Vault) (calls : List Call) : Vault :=
  calls.foldl Call.apply v

end Scintx.Credentials
