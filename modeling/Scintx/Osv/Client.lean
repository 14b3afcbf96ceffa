/-
Scintx.Osv.Client — the queries of the OSV provider
(`extensions/providers/osv/client.go`, `vscode.go`).

`query` posts a request and goes on as long as the answer names a next
page. What the server does is a parameter: `Server` answers a request as
it likes, in view of everything that went over the `Wire` before. So the
loop is over a state that has the wire in it, and takes a number of
rounds (`Scintx.Lib.Loop`).

JSON is a parameter too: `GoJson.decode` may accept and refuse what it
likes. Left out: the constant headers, and the end of an answer after 32
MiB or of a quoted error after 200 bytes where it falls inside a
character.
-/
import Scintx.Api.Types
import Scintx.Lib.Loop
import Scintx.Osv.Vscode

namespace Scintx.Osv

open Scintx.Lib Scintx.Api

/-! ## Requests and answers -/

structure OsvSeverity where
  type : String
  score : String
  deriving DecidableEq

structure OsvReference where
  type : String
  url : String
  deriving DecidableEq

structure Vulnerability where
  id : String
  summary : String := ""
  details : String := ""
  aliases : List String := []
  severity : List OsvSeverity := []
  references : List OsvReference := []
  databaseSpecific : GoMap AnyValue := ∅
  deriving DecidableEq

structure QueryPackage where
  purl : String := ""
  ecosystem : String := ""
  name : String := ""
  deriving DecidableEq, Repr

structure QueryRequest where
  package : QueryPackage
  version : String := ""
  pageToken : String := ""
  deriving DecidableEq, Repr

structure QueryResponse where
  vulns : List Vulnerability
  nextPageToken : String := ""
  deriving DecidableEq

structure HttpRequest where
  url : String
  authorization : Option String := none
  xApiKey : Option String := none
  body : QueryRequest
  deriving DecidableEq, Repr

/-- Why there is no answer: the request could not be made or sent, or the
answer not be read. -/
structure TransportError where
  text : String
  /-- It is a `context.DeadlineExceeded`. -/
  deadline : Bool := false
  deriving DecidableEq, Repr

inductive Exchange where
  | failed (e : TransportError)
  | answered (status : Nat) (body : String)
  deriving DecidableEq, Repr

/-- Everything that was asked, with what came back. -/
abbrev Wire := List (HttpRequest × Exchange)

abbrev Server := Wire → HttpRequest → Exchange

inductive ClientError where
  | http (status : Nat) (body : String)
  | transport (e : TransportError)
  | other (text : String)
  deriving DecidableEq, Repr

def ClientError.text : ClientError → String
  | .http status body => "osv http " ++ toString status ++ ": " ++ body
  | .transport e => e.text
  | .other text => text

/-- What is used of `encoding/json`. -/
class GoJson where
  decode : String → Except String QueryResponse
  /-- Of the pages of a query and the number of vulnerabilities. -/
  encodePages : List String → Nat → String
  /-- Of the queries of a fallback, what each came to, and the number of
  vulnerabilities. -/
  encodeFallback : List VscodeEcosystemQuery → List String → Nat → String

/-- The characters that fit into the first `n` bytes. -/
def takeBytes : Nat → List Char → List Char
  | _, [] => []
  | n, c :: cs => if c.utf8Size ≤ n then c :: takeBytes (n - c.utf8Size) cs else []

def limitBytes (n : Nat) (s : String) : String :=
  String.ofList (takeBytes n s.toList)

def truncate (s : String) (n : Nat) : String :=
  if s.utf8ByteSize ≤ n then s else limitBytes n s ++ "…"

/-! ## One query -/

structure Client where
  baseURL : String := ""
  bearerToken : String := ""
  apiKey : String := ""

def defaultBaseURL : String := "https://api.osv.dev"

def Client.request (c : Client) (pkg : QueryPackage) (version pageToken : String) :
    HttpRequest where
  url := (if c.baseURL = "" then defaultBaseURL else c.baseURL) ++ "/v1/query"
  authorization := if c.bearerToken ≠ "" then some ("Bearer " ++ c.bearerToken) else none
  xApiKey := if c.bearerToken = "" ∧ c.apiKey ≠ "" then some c.apiKey else none
  body := { package := pkg, version := version, pageToken := pageToken }

/-- One exchange, after what is on the wire. -/
def Client.ask (c : Client) (server : Server) (pkg : QueryPackage) (version : String)
    (wire : Wire) (pageToken : String) : HttpRequest × Exchange :=
  let req := c.request pkg version pageToken
  (req, server wire req)

structure QueryState where
  wire : Wire
  all : List Vulnerability := []
  rawPages : List String := []
  pageToken : String := ""

/-- What a query comes to, and the wire after it. -/
abbrev QueryResult := Except ClientError (List Vulnerability × String) × Wire

section Given

variable [GoJson]

/-- The page of an answer, with the text it was decoded from. -/
def readExchange : Exchange → Except ClientError (QueryResponse × String)
  | .failed e => .error (.transport e)
  | .answered status body =>
    let respBody := limitBytes 33554432 body
    if 400 ≤ status then .error (.http status (truncate respBody 200))
    else
      match GoJson.decode respBody with
      | .error e => .error (.other ("decode osv response: " ++ e))
      | .ok page => .ok (page, respBody)

/-- The body of the loop. -/
def Client.queryRound (c : Client) (server : Server) (pkg : QueryPackage) (version : String)
    (s : QueryState) : Round QueryState QueryResult :=
  let exchange := c.ask server pkg version s.wire s.pageToken
  let wire := s.wire ++ [exchange]
  match readExchange exchange.2 with
  | .error e => .done (.error e, wire)
  | .ok (parsed, respBody) =>
    let all := s.all ++ parsed.vulns
    let rawPages := s.rawPages ++ [respBody]
    if parsed.nextPageToken = "" then
      .done (.ok (all, GoJson.encodePages rawPages all.length), wire)
    else
      .again { wire := wire, all := all, rawPages := rawPages, pageToken := parsed.nextPageToken }

/-- `query`, of at most `rounds` requests. -/
def Client.query (c : Client) (server : Server) (rounds : Nat) (wire : Wire) (pkg : QueryPackage)
    (version : String) : Option QueryResult :=
  loop (c.queryRound server pkg version) rounds { wire := wire }

def Client.queryByPURL (c : Client) (server : Server) (rounds : Nat) (wire : Wire)
    (purl : String) : Option QueryResult :=
  c.query server rounds wire { purl := purl } ""

def Client.queryByEcosystem (c : Client) (server : Server) (rounds : Nat) (wire : Wire)
    (ecosystem name version : String) : Option QueryResult :=
  c.query server rounds wire { ecosystem := ecosystem, name := name } version

/-! ## The registries of VS Code extensions -/

structure Merging where
  seen : List String := []
  merged : List Vulnerability := []

/-- One more vulnerability; a second one with the same id is dropped. -/
def Merging.add (m : Merging) (v : Vulnerability) : Merging :=
  if v.id = "" then { m with merged := m.merged ++ [v] }
  else if v.id ∈ m.seen then m
  else { seen := v.id :: m.seen, merged := m.merged ++ [v] }

/-- The loop over the registries. -/
def Client.queryRegistries (c : Client) (server : Server) (rounds : Nat) :
    List VscodeEcosystemQuery → Wire → Merging → List String →
      Option (Except ClientError (List Vulnerability × List String) × Wire)
  | [], wire, m, rawPages => some (.ok (m.merged, rawPages), wire)
  | q :: rest, wire, m, rawPages =>
    match c.queryByEcosystem server rounds wire q.ecosystem q.name q.version with
    | none => none
    | some (.error e, wire) => some (.error e, wire)
    | some (.ok (vulns, raw), wire) =>
      c.queryRegistries server rounds rest wire (vulns.foldl Merging.add m) (rawPages ++ [raw])

def Client.queryVSCodeExtension [GoStd] [GoUrl] (c : Client) (server : Server) (rounds : Nat)
    (wire : Wire) (canonicalPURL : String) : Option QueryResult :=
  match vscodeExtensionQueries canonicalPURL with
  | .error e => some (.error (.other e), wire)
  | .ok queries =>
    match c.queryRegistries server rounds queries wire {} [] with
    | none => none
    | some (.error e, wire) => some (.error e, wire)
    | some (.ok (merged, rawPages), wire) =>
      some (.ok (merged, GoJson.encodeFallback queries rawPages merged.length), wire)

end Given

end Scintx.Osv
