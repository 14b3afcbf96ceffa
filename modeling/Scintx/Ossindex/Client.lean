/-
Scintx.Ossindex.Client — the report of OSS Index on a package, and its
vulnerabilities as findings
(`extensions/providers/ossindex/client.go`, `convert.go`).

One request is made. Of the reports in the answer the first one is taken,
whatever coordinates it has, and an answer without reports is a report
without vulnerabilities. What the server does is a parameter; so is the
decoding of its JSON.

Findings, verdicts and exchanges have the types they have for the OSV
provider. Left out: the constant headers, and the end of an answer after
32 MiB or of a quoted error after 200 bytes where it falls inside a
character.
-/
import Scintx.Osv.Convert

namespace Scintx.Ossindex

open Scintx.Lib Scintx.Api Scintx.Osv

/-! ## The request -/

structure Vulnerability where
  id : String
  displayName : String := ""
  title : String := ""
  description : String := ""
  cvssScore : Option Float64 := none
  cvssVector : String := ""
  cwe : String := ""
  cve : String := ""
  reference : String := ""
  externalReferences : List String := []
  deriving DecidableEq

structure ComponentReport where
  coordinates : String
  vulnerabilities : List Vulnerability := []
  deriving DecidableEq

structure ReportRequest where
  url : String
  /-- User and password. -/
  basicAuth : Option (String × String) := none
  coordinates : List String
  deriving DecidableEq

/-- What comes back for a request. -/
abbrev ReportServer := ReportRequest → Exchange

/-- `json.Unmarshal` into a list of reports. -/
class GoReports where
  decode : String → Except String (List ComponentReport)

def authHelp : String :=
  "create a Guide PAT at https://guide.sonatype.com then run: scintx auth ossindex " ++
    "(or set SCINTX_OSSINDEX_TOKEN for CI)"

/-- The text of an error. -/
def errorText : ClientError → String
  | .http status body =>
    if status = 401 ∨ status = 403 then "OSS Index auth required — " ++ authHelp
    else "ossindex http " ++ toString status ++ ": " ++ body
  | .transport e => e.text
  | .other text => text

structure Client where
  baseURL : String := ""
  user : String := ""
  token : String := ""

def defaultBaseURL : String := "https://ossindex.sonatype.org"

def Client.request (c : Client) (purl : String) : ReportRequest where
  url := (if c.baseURL = "" then defaultBaseURL else c.baseURL) ++ "/api/v3/component-report"
  basicAuth :=
    if c.token ≠ "" then some (if c.user = "" then "scintx" else c.user, c.token) else none
  coordinates := [purl]

/-- The report on `purl` in an answer, with the text of the answer. -/
def readReport [GoReports] (purl : String) :
    Exchange → Except ClientError (ComponentReport × String)
  | .failed e => .error (.transport e)
  | .answered status body =>
    let respBody := limitBytes 33554432 body
    if 400 ≤ status then .error (.http status (truncate respBody 200))
    else
      match GoReports.decode respBody with
      | .error e => .error (.other ("decode ossindex response: " ++ e))
      | .ok [] => .ok ({ coordinates := purl }, respBody)
      | .ok (report :: _) => .ok (report, respBody)

def Client.queryByPURL [GoReports] (c : Client) (server : ReportServer) (purl : String) :
    Except ClientError (ComponentReport × String) :=
  readReport purl (server (c.request purl))

/-! ## Findings -/

section Given

variable [GoStd]

/-- The first prefix that the vector has decides. -/
def cvssVersionFromVector (vector : String) : String :=
  let vector := toUpper (trimSpace vector)
  if hasPrefix vector "CVSS:4." then "4.0"
  else if hasPrefix vector "CVSS:3.1" then "3.1"
  else if hasPrefix vector "CVSS:3." then "3.0"
  else if hasPrefix vector "CVSS:2." then "2.0"
  else ""

def mapSeverity (v : Vulnerability) : List SeverityObservation :=
  if v.cvssScore = none ∧ v.cvssVector = "" then []
  else
    let obs : SeverityObservation :=
      { scheme := "CVSS", vector := v.cvssVector, source := "provider"
        version := cvssVersionFromVector v.cvssVector }
    match v.cvssScore with
    | some score => [{ obs with score := some score, level := cvssLevel score }]
    | none => [obs]

/-- The title, or else the name, or else the id. -/
def titleOf (v : Vulnerability) : String :=
  if v.title ≠ "" then v.title else if v.displayName ≠ "" then v.displayName else v.id

def identifiersOf (v : Vulnerability) : List OsvIdentifier :=
  [{ scheme := "OSSINDEX", value := v.id, relation := .none }] ++
    (if v.cve ≠ "" ∧ matchCVE v.cve then
      [{ scheme := "CVE", value := toUpper v.cve, relation := .alias }] else []) ++
    (if v.displayName ≠ "" ∧ v.displayName ≠ v.id ∧ v.displayName ≠ v.cve then
      [{ scheme := "OSSINDEX", value := v.displayName, relation := .alias }] else [])

/-- A number, or any text that begins as one does. -/
def weaknessesOf (v : Vulnerability) : List CweRef :=
  if v.cwe = "" then []
  else
    let cwe := trimSpace v.cwe
    match matchCWE cwe with
    | some n => [{ scheme := "CWE", id := "CWE-" ++ n }]
    | none =>
      if hasPrefix (toUpper cwe) "CWE-" then [{ scheme := "CWE", id := toUpper cwe }] else []

def vulnToFinding (canonicalPURL : String) (v : Vulnerability) : OsvFinding where
  id := v.id
  type := "vulnerability"
  title := titleOf v
  description := v.description
  identifiers := identifiersOf v
  subjects := [{ purl := some canonicalPURL }]
  severity := mapSeverity v
  weaknesses := weaknessesOf v
  assessment := some { status := .affected }
  references := (if v.reference ≠ "" then [v.reference] else []) ++ v.externalReferences

def vulnsToFindings (canonicalPURL : String) (vulns : List Vulnerability) : List OsvFinding :=
  vulns.map (vulnToFinding canonicalPURL)

end Given

def verdictFromFindings (findings : List OsvFinding) : OsvVerdict :=
  if findings = [] then
    { value := .pass, origin := .provider, rule := "ossindex.zero_findings_means_pass" }
  else
    { value := .fail
      origin := .provider
      rule := "ossindex.any_applicable_finding_means_fail"
      derivation := some
        { drivenBy := findings.map fun f => { findingID := f.id, weight := "primary" }
          summary := toString findings.length ++ " OSS Index vulnerability finding(s)" } }

end Scintx.Ossindex
