/-
Scintx.Osv.Convert — OSV records as findings
(`extensions/providers/osv/convert.go`).

The findings and the verdict are the provider's own, with every field it
sets. Regular expressions are scans: each one begins with letters in any
case and goes on with a run of digits.
-/
import Scintx.Osv.Client

namespace Scintx.Osv

open Scintx.Lib Scintx.Api

/-! ## What the provider makes -/

inductive IdentifierRelation where
  | none
  | alias
  | upstream
  | related
  deriving DecidableEq, Repr

structure OsvIdentifier where
  scheme : String
  value : String
  relation : IdentifierRelation
  deriving DecidableEq, Repr

structure CweRef where
  scheme : String
  id : String
  deriving DecidableEq, Repr

structure OsvFinding where
  id : String
  type : String
  title : String
  description : String
  identifiers : List OsvIdentifier
  subjects : List ArtifactRef
  severity : List SeverityObservation
  weaknesses : List CweRef
  assessment : Option Assessment
  references : List String
  deriving DecidableEq

structure VerdictDerivationEntry where
  findingID : String
  weight : String
  deriving DecidableEq, Repr

structure VerdictDerivation where
  drivenBy : List VerdictDerivationEntry
  summary : String
  deriving DecidableEq, Repr

inductive VerdictOrigin where
  | provider
  | adapter
  deriving DecidableEq, Repr

structure OsvVerdict where
  value : VerdictValue
  origin : VerdictOrigin
  rule : String
  derivation : Option VerdictDerivation := none
  deriving DecidableEq

/-- `strconv.ParseFloat`, without its error. -/
class GoFloat where
  parseFloat : String → Option Float64

/-! ## Texts -/

section Given

variable [GoStd]

/-- What follows `start`, in any letter case. -/
def afterFold (start : String) (s : String) : Option (List Char) :=
  let n := start.toList.length
  if equalFoldList (s.toList.take n) start.toList then some (s.toList.drop n) else none

def allDigits (cs : List Char) : Bool :=
  cs ≠ [] && cs.all Char.isDigit

/-- `reCVE`. -/
def matchCVE (s : String) : Bool :=
  match afterFold "CVE-" s with
  | none => false
  | some rest =>
    let year := rest.take 4
    year.length = 4 && allDigits year &&
      match rest.drop 4 with
      | '-' :: number => allDigits number
      | _ => false

/-- `reCWE`, with its group. -/
def matchCWE (s : String) : Option String :=
  match afterFold "CWE-" s with
  | none => none
  | some rest => if allDigits rest then some (String.ofList rest) else none

/-- `reCVSS`, with its group. -/
def matchCVSS (s : String) : Option String :=
  match afterFold "CVSS:" s with
  | none => none
  | some rest =>
    let version := rest.takeWhile fun c => c.isDigit || c = '.'
    if version ≠ [] ∧ ['/'].isPrefixOf (rest.drop version.length) then
      some (String.ofList version)
    else none

/-! ## Severities -/

def cvssLevel (score : Float64) : String :=
  if Float64.le (.fin 9) score then "critical"
  else if Float64.le (.fin 7) score then "high"
  else if Float64.le (.fin 4) score then "medium"
  else if Float64.lt .zero score then "low"
  else "none"

/-- The version a type of severity stands for. -/
def severityVersion : String → Option String
  | "CVSS_V2" => some "2.0"
  | "CVSS_V3" => some "3.x"
  | "CVSS_V4" => some "4.0"
  | _ => none

/-- Some records have a bare number; a vector is no number. -/
def parseCVSSNumeric [GoFloat] (score : String) : Option Float64 :=
  GoFloat.parseFloat score

/-- A CVSS severity: a bare number is a score, a vector names its
version. -/
def cvssObservation [GoFloat] (version score : String) : SeverityObservation :=
  let obs : SeverityObservation :=
    { scheme := "CVSS", version := version, vector := score, source := "provider" }
  match parseCVSSNumeric score with
  | some n => { obs with score := some n, level := cvssLevel n }
  | none =>
    match matchCVSS score with
    | some version => { obs with version := version }
    | none => obs

def severityFromOSV [GoFloat] (typ score : String) : Option SeverityObservation :=
  let typ := toUpper (trimSpace typ)
  let score := trimSpace score
  if score = "" then none
  else
    match severityVersion typ with
    | some version => some (cvssObservation version score)
    | none =>
      match matchCVSS score with
      | some version => some (cvssObservation version score)
      | none => some { scheme := "OSV", level := toLower score, source := "provider" }

/-- The first of the two keys that has a text. -/
def databaseSeverityLevel (db : GoMap AnyValue) : Option String :=
  ["severity", "Severity"].findSome? fun key =>
    match db.lookup key with
    | some (.str s) => if s = "" then none else some (toLower s)
    | _ => none

def mapOSVSeverity [GoFloat] (v : Vulnerability) : List SeverityObservation :=
  let out := v.severity.filterMap fun s => severityFromOSV s.type s.score
  if out = [] then
    (databaseSeverityLevel v.databaseSpecific).toList.map fun lvl =>
      { scheme := "OSV", level := lvl, source := "provider" }
  else out

/-! ## Findings -/

def aliasIdentifier (a : String) : OsvIdentifier where
  scheme :=
    if matchCVE a then "CVE"
    else if hasPrefix (toUpper a) "GHSA-" then "GHSA"
    else "OTHER"
  value := a
  relation := .alias

def vulnToFinding [GoFloat] (canonicalPURL : String) (v : Vulnerability) : OsvFinding where
  id := v.id
  type := "vulnerability"
  title := if v.summary = "" then v.id else v.summary
  description := if v.details = "" then v.summary else v.details
  identifiers :=
    { scheme := "OSV", value := v.id, relation := .none } :: v.aliases.map aliasIdentifier
  subjects := [{ purl := some canonicalPURL }]
  severity := mapOSVSeverity v
  weaknesses := (v.aliases.filterMap matchCWE).map fun n => { scheme := "CWE", id := "CWE-" ++ n }
  assessment := some { status := .affected }
  references := (v.references.map (·.url)).filter (· ≠ "")

def vulnsToFindings [GoFloat] (canonicalPURL : String) (vulns : List Vulnerability) :
    List OsvFinding :=
  vulns.map (vulnToFinding canonicalPURL)

end Given

def verdictFromFindings (findings : List OsvFinding) : OsvVerdict :=
  if findings = [] then
    { value := .pass, origin := .provider, rule := "osv.zero_findings_means_pass" }
  else
    { value := .fail
      origin := .provider
      rule := "osv.any_applicable_finding_means_fail"
      derivation := some
        { drivenBy := findings.map fun f => { findingID := f.id, weight := "primary" }
          summary := toString findings.length ++ " OSV vulnerability finding(s)" } }

end Scintx.Osv
