/-
Scintx.Ossindex.Provider — the assessment by the OSS Index provider
(`extensions/providers/ossindex/provider.go`, `newClientFromEnv` of
`client.go`).

`assess` asks for the report on the canonical PURL; an error of any kind
becomes a result with the execution status `error` and without a verdict,
a deadline that has passed included. `assess_cases` is all that an
assessment can come to.

The clock, random parts of ids, the digest of the answer, and whether the
context has met its deadline are parameters.
-/
import Scintx.Ossindex.Client
import Scintx.Osv.Provider

namespace Scintx.Ossindex

open Scintx.Lib Scintx.Api Scintx.Osv

def providerID : String := "ossindex"

def providerVersion : String := "1.0.0"

structure Provider where
  /-- Made on the first use if there is none. -/
  client : Option Client := none
  manifestDigest : String := ""

def newClientFromEnv (host : Credentials.Host) (faults : Credentials.Faults)
    (vault : Credentials.Vault) : Client :=
  let base := host.getenv "SCINTX_OSSINDEX_BASE_URL"
  let base := if base = "" then defaultBaseURL else base
  let c : Client :=
    match (Credentials.get host faults vault providerID).toOption with
    | some r =>
      if r.creds.token ≠ "" then
        { baseURL := base, token := r.creds.token, user := r.creds.user }
      else { baseURL := base }
    | none => { baseURL := base }
  let u := trimSpace (host.getenv "SCINTX_OSSINDEX_USER")
  if u ≠ "" then { c with user := u } else c

def errorResult (env : AssessEnv) (code : ProviderErrorCode) (msg : String) : OsvResult where
  id := "res_" ++ env.resultRand
  provider := { id := providerID, version := providerVersion }
  execution :=
    { status := .error
      startedAt := env.started
      finishedAt := env.finished
      error := some { code := code, message := msg } }

/-- The result for an error; `expired` is whether the context has met its
deadline. -/
def clientErrorResult (env : AssessEnv) (expired : Bool) (err : ClientError) : OsvResult :=
  match err with
  | .http status _ =>
    errorResult env (if 500 ≤ status then .provider5xx else .provider4xx) (errorText err)
  | .transport e =>
    errorResult env (if e.deadline || expired then .timeout else .transport) (errorText err)
  | .other _ => errorResult env (if expired then .timeout else .transport) (errorText err)

theorem clientErrorResult_error (env : AssessEnv) (expired : Bool) (e : ClientError) :
    (clientErrorResult env expired e).execution.status = .error := by
  cases e <;> rfl

/-- The client that is used. -/
def Provider.clientIn (p : Provider) (env : AssessEnv) : Client :=
  p.client.getD (newClientFromEnv env.host env.faults env.vault)

section Given

variable [GoStd]

def Provider.completedResult (p : Provider) (env : AssessEnv) (canonical : String)
    (vulns : List Vulnerability) (raw : String) : OsvResult :=
  let findings := vulnsToFindings canonical vulns
  { id := "res_" ++ env.resultRand
    provider := { id := providerID, version := providerVersion }
    capabilityManifestDigest := p.manifestDigest
    execution :=
      { status := .completed, startedAt := env.started, finishedAt := env.finished }
    verdict := some (verdictFromFindings findings)
    findings := findings
    rawResult := some
      { uri := "urn:scintx:blob:ossindex_" ++ env.blobRand
        mediaType := "application/json"
        digests := Finmap.singleton "sha256" (env.sha256Hex raw)
        format := "ossindex" } }

def Provider.assess [GoReports] (p : Provider) (env : AssessEnv) (expired : Bool)
    (server : ReportServer) (artifact : Artifact) : OsvResult :=
  match artifact.purl with
  | none => errorResult env .normalization "no purl provided"
  | some purl =>
    match canonicalPurl purl with
    | .error e => errorResult env .normalization ("invalid purl: " ++ e)
    | .ok canonical =>
      match (p.clientIn env).queryByPURL server canonical with
      | .error e => clientErrorResult env expired e
      | .ok (report, raw) => p.completedResult env canonical report.vulnerabilities raw

/-! ## What an assessment can come to -/

/-- The server has reported on the artifact: it answered the request for
its canonical PURL without an error status, the answer decodes, and its
first report, if there is one, has the vulnerabilities. -/
def Reported [GoReports] (c : Client) (server : ReportServer) (artifact : Artifact)
    (vulns : List Vulnerability) : Prop :=
  ∃ purl canonical status body reports, artifact.purl = some purl ∧
    canonicalPurl purl = .ok canonical ∧
    server (c.request canonical) = .answered status body ∧ status < 400 ∧
    GoReports.decode (limitBytes 33554432 body) = .ok reports ∧
    vulns = (reports.head?.map (·.vulnerabilities)).getD []

omit [GoStd] in
theorem readReport_ok [GoReports] {purl raw : String} {x : Exchange} {report : ComponentReport}
    (h : readReport purl x = .ok (report, raw)) :
    ∃ status body reports, x = .answered status body ∧ status < 400 ∧
      GoReports.decode (limitBytes 33554432 body) = .ok reports ∧
      report.vulnerabilities = (reports.head?.map (·.vulnerabilities)).getD [] := by
  cases x with
  | failed e => cases h
  | answered status body =>
    simp only [readReport] at h
    split at h
    · cases h
    · rename_i hstatus
      split at h <;> cases h
      · rename_i hdecode
        exact ⟨status, body, [], rfl, not_le.mp hstatus, hdecode, rfl⟩
      · rename_i rest hdecode
        exact ⟨status, body, report :: rest, rfl, not_le.mp hstatus, hdecode, rfl⟩

theorem assess_cases [GoReports] (p : Provider) (env : AssessEnv) (expired : Bool)
    (server : ReportServer) (artifact : Artifact) :
    (p.assess env expired server artifact).execution.status = .error ∨
      ∃ canonical vulns raw, Reported (p.clientIn env) server artifact vulns ∧
        p.assess env expired server artifact = p.completedResult env canonical vulns raw := by
  unfold Provider.assess
  split
  · exact .inl rfl
  · rename_i purl hpurl
    split
    · exact .inl rfl
    · rename_i canonical hcanonical
      split
      · exact .inl (clientErrorResult_error env expired _)
      · rename_i report raw hquery
        obtain ⟨status, body, reports, hanswer, hstatus, hdecode, hvulns⟩ := readReport_ok hquery
        exact .inr ⟨canonical, _, raw,
          ⟨purl, canonical, status, body, reports, hpurl, hcanonical, hanswer, hstatus, hdecode,
            hvulns⟩, rfl⟩

end Given

end Scintx.Ossindex
