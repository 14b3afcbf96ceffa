/-
Scintx.Osv.Provider — the assessment by the OSV provider
(`extensions/providers/osv/provider.go`).

`assess` asks for the canonical PURL. OSV does not know VS Code
extensions by their PURL, so for these an answer without vulnerabilities
is not trusted, and the registries are asked. Every error becomes a
result too, one without a verdict.

The capability that is asked for is not read. The clock, the random parts
of ids and the digest of the raw pages are parameters (`AssessEnv`).
-/
import Scintx.Credentials.Resolve
import Scintx.Osv.Convert

namespace Scintx.Osv

open Scintx.Lib Scintx.Api

def providerID : String := "osv"

def providerVersion : String := "1.0.0"

structure Provider where
  /-- Made on the first use if there is none. -/
  client : Option Client := none
  manifestDigest : String := ""

structure OsvResult where
  id : String
  schemaVersion : String := "1.0.0"
  provider : ProviderRef := { id := providerID, version := providerVersion }
  capabilities : List String := ["vulnerability:v1"]
  capabilityManifestDigest : String := ""
  execution : Execution
  verdict : Option OsvVerdict := none
  findings : List OsvFinding := []
  rawResult : Option ResourceReference := none
  deriving DecidableEq

def newClientFromEnv (host : Credentials.Host) (faults : Credentials.Faults)
    (vault : Credentials.Vault) : Client :=
  let base := host.getenv "SCINTX_OSV_BASE_URL"
  let resolved := (Credentials.get host faults vault "osv").toOption
  { baseURL := if base = "" then defaultBaseURL else base
    apiKey := trimSpace (host.getenv "SCINTX_OSV_API_KEY")
    -- an error leaves the token empty, like credentials without one
    bearerToken := (resolved.map (·.creds.token)).getD "" }

/-- What an assessment meets besides the server. -/
structure AssessEnv where
  host : Credentials.Host := {}
  faults : Credentials.Faults := {}
  vault : Credentials.Vault := {}
  started : Time := 0
  finished : Time := 0
  resultRand : String := ""
  blobRand : String := ""
  sha256Hex : String → String := id

def errorResult (env : AssessEnv) (code : ProviderErrorCode) (msg : String) : OsvResult where
  id := "res_" ++ env.resultRand
  execution :=
    { status := .error
      startedAt := env.started
      finishedAt := env.finished
      error := some { code := code, message := msg } }

def mapClientError (env : AssessEnv) (err : ClientError) : OsvResult :=
  match err with
  | .http status _ =>
    errorResult env (if 500 ≤ status then .provider5xx else .provider4xx) err.text
  | .transport e => errorResult env (if e.deadline then .timeout else .transport) err.text
  | .other _ => errorResult env .transport err.text

/-- The client that is used. -/
def Provider.clientIn (p : Provider) (env : AssessEnv) : Client :=
  p.client.getD (newClientFromEnv env.host env.faults env.vault)

section Given

variable [GoStd] [GoUrl] [GoJson]

/-- The queries of an assessment, with what the deciding one returned. -/
def Client.lookUp (c : Client) (server : Server) (rounds : Nat) (canonical : String) :
    Option QueryResult :=
  match c.queryByPURL server rounds [] canonical with
  | none => none
  | some (.error e, wire) => some (.error e, wire)
  | some (.ok (vulns, raw), wire) =>
    if vulns = [] then
      match purlType canonical with
      | .error _ => some (.ok (vulns, raw), wire)
      | .ok typ =>
        if typ = "vscode-extension" then c.queryVSCodeExtension server rounds wire canonical
        else some (.ok (vulns, raw), wire)
    else some (.ok (vulns, raw), wire)

def Provider.completedResult [GoFloat] (p : Provider) (env : AssessEnv) (canonical : String)
    (vulns : List Vulnerability) (raw : String) : OsvResult :=
  let findings := vulnsToFindings canonical vulns
  { id := "res_" ++ env.resultRand
    capabilityManifestDigest := p.manifestDigest
    execution :=
      { status := .completed, startedAt := env.started, finishedAt := env.finished }
    verdict := some (verdictFromFindings findings)
    findings := findings
    rawResult := some
      { uri := "urn:scintx:blob:osv_" ++ env.blobRand
        mediaType := "application/json"
        digests := Finmap.singleton "sha256" (env.sha256Hex raw)
        format := "osv" } }

/-- `Assess`, of at most `rounds` requests a query: the result, and
everything that went over the wire. -/
def Provider.assess [GoFloat] (p : Provider) (env : AssessEnv) (server : Server) (rounds : Nat)
    (artifact : Artifact) : Option (OsvResult × Wire) :=
  match artifact.purl with
  | none => some (errorResult env .normalization "no purl provided", [])
  | some purl =>
    match canonicalPurl purl with
    | .error e => some (errorResult env .normalization ("invalid purl: " ++ e), [])
    | .ok canonical =>
      match (p.clientIn env).lookUp server rounds canonical with
      | none => none
      | some (.error e, wire) => some (mapClientError env e, wire)
      | some (.ok (vulns, raw), wire) => some (p.completedResult env canonical vulns raw, wire)

end Given

end Scintx.Osv
