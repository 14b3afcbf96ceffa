/-
Scintx.Auth.Sign — HTTP message signatures (`internal/auth/sign.go`).

`signRequest` is the client side, `verifyHMAC` the gateway side. A
request is what both sides read of it: method, escaped path, headers; a
method, a path and a header value are single lines on the wire, and
`Line` carries that.

The verifier scans the two headers itself. A slice out of bounds in that
scan is a panic in the source and `Failure.panic` here; every other
failure is a rejection with the source's text.

The clock is an argument. Times are nanoseconds since the zero time;
`Unix` seconds are counted from 1970.
-/
import Scintx.Api.Types
import Scintx.Lib.Base64
import Scintx.Lib.Text

namespace Scintx.Auth

open Scintx.Lib Scintx.Api

/-- How a verification ends when it does not accept. -/
inductive Failure where
  | rejected (text : String)
  | panic
  deriving DecidableEq

/-! ## Requests -/

@[ext] structure Line where
  text : String
  oneLine : OneLine text
  deriving DecidableEq

structure Request where
  method : Line
  /-- `URL.Path`, unescaped. -/
  path : String
  /-- `URL.EscapedPath()`. -/
  escapedPath : Line
  /-- Canonical header name to its first value. -/
  header : GoMap Line

/-- `Header.Get`. -/
def Request.get (r : Request) (name : String) : String :=
  ((r.header.lookup name).map (·.text)).getD ""

/-- `Header.Set`. -/
def Request.set (r : Request) (name : String) (value : Line) : Request :=
  { r with header := r.header.insert name value }

/-! ## Time -/

/-- `Unix()` of the zero time, negated. -/
def unixOrigin : Int := 62135596800

/-- `t.Unix()`, an `int64`. -/
def unixSeconds (t : Time) : Int :=
  wrapInt64 (t / 1000000000 - unixOrigin)

/-- `time.Unix(sec, 0)`, whose internal second count wraps. -/
def unixTime (sec : Int) : Time :=
  wrapInt64 (sec + unixOrigin) * 1000000000

/-- `t.Sub(u)`, which saturates. -/
def subTime (t u : Time) : Duration :=
  max minInt64 (min maxInt64 (t - u))

section Given

variable [GoStd]

/-! ## Texts of the signature headers -/

def contentDigestSHA256 (body : List UInt8) : String :=
  "sha-256=:" ++ String.ofList (Base64.encode (GoStd.sha256 body)) ++ ":"

/-- The covered components of a signed request, with their values. -/
def coveredBySigner (req : Request) (body : List UInt8) : List (String × String) :=
  [("@method", req.method.text), ("@path", req.escapedPath.text)] ++
    (if body ≠ [] then [("content-digest", contentDigestSHA256 body)] else []) ++
    (if req.get "Content-Type" ≠ "" then [("content-type", req.get "Content-Type")] else [])

def componentLine (c : String × String) : String :=
  "\"" ++ c.1 ++ "\": " ++ c.2

def paramsText (names : List String) (created : Int) (keyID : String) : String :=
  "(" ++ join (names.map fun n => "\"" ++ n ++ "\"") " " ++ ");created=" ++ toString created ++
    ";keyid=" ++ quote keyID ++ ";alg=\"hmac-sha256\""

/-- The signature base over covered components and a parameter text. -/
def baseText (lines : List String) (params : String) : String :=
  join (lines ++ ["\"@signature-params\": " ++ params]) "\n"

def signatureText (mac : List UInt8) : String :=
  "sig1=:" ++ String.ofList (Base64.encode mac) ++ ":"

/-! These texts are single lines. -/

omit [GoStd] in
theorem oneLine_base64 (bs : List UInt8) : OneLine (String.ofList (Base64.encode bs)) := by
  rw [OneLine, String.toList_ofList]
  intro h
  exact (Base64.encode_chars bs _ h).1 rfl

theorem oneLine_contentDigest (body : List UInt8) : OneLine (contentDigestSHA256 body) :=
  oneLine_append (oneLine_append (by decide) (oneLine_base64 _)) (by decide)

omit [GoStd] in
theorem oneLine_signatureText (mac : List UInt8) : OneLine (signatureText mac) :=
  oneLine_append (oneLine_append (by decide) (oneLine_base64 _)) (by decide)

omit [GoStd] in
theorem oneLine_toString (n : Int) : OneLine (toString n) := by
  intro h
  rcases mem_toString h with hdigit | hminus
  · exact absurd hdigit (by decide)
  · exact absurd hminus (by decide)

/-- The characters of the escapes of `%q`. -/
def escapeChars : List Char :=
  ['\\', '"', 'a', 'b', 'c', 'd', 'e', 'f', 'n', 'r', 't', 'u', 'U', 'v', 'x', '0', '1', '2', '3',
    '4', '5', '6', '7', '8', '9']

omit [GoStd] in
theorem hexDigit_mem_escapeChars : ∀ n < 16, hexDigit n ∈ escapeChars := by
  decide

omit [GoStd] in
theorem mem_hexEscape {c d : Char} (h : d ∈ hexEscape c) : d ∈ escapeChars := by
  have hhex : ∀ (digits : Nat) (x : Char), x ∈ escapeChars → d ∈ '\\' :: x ::
      (List.range digits).reverse.map (fun i => hexDigit (c.toNat / 16 ^ i % 16)) →
      d ∈ escapeChars := by
    intro digits x hx hd
    simp only [List.mem_cons] at hd
    rcases hd with rfl | rfl | hd
    · decide
    · exact hx
    · obtain ⟨i, -, rfl⟩ := List.mem_map.mp hd
      exact hexDigit_mem_escapeChars _ (Nat.mod_lt _ (by decide))
  simp only [hexEscape] at h
  split at h
  · exact hhex 2 'x' (by decide) h
  · split at h
    · exact hhex 4 'u' (by decide) h
    · exact hhex 8 'U' (by decide) h

/-- What `%q` writes for a character: itself or an escape. -/
theorem mem_quoteChar {c d : Char} (h : d ∈ quoteChar c) :
    d ∈ escapeChars ∨ (d = c ∧ GoStd.isPrint c = true) := by
  unfold quoteChar at h
  split at h
  · rename_i hc
    left
    rcases hc with rfl | rfl
    · exact forall_mem_of_all (p := (· ∈ escapeChars)) (by decide) d h
    · exact forall_mem_of_all (p := (· ∈ escapeChars)) (by decide) d h
  · split at h
    · rename_i hprint
      exact .inr ⟨List.mem_singleton.mp h, hprint⟩
    · left
      split at h
      all_goals first
        | exact mem_hexEscape h
        | exact forall_mem_of_all (p := (· ∈ escapeChars)) (by decide) d h

theorem lineFeed_not_mem_quoteChar (c : Char) : '\n' ∉ quoteChar c := by
  intro h
  rcases mem_quoteChar h with hmem | ⟨rfl, hprint⟩
  · exact absurd hmem (by decide)
  · simp [GoStd.isPrint_lineFeed] at hprint

theorem oneLine_quote (s : String) : OneLine (quote s) := by
  rw [OneLine, quote, String.toList_ofList]
  simp only [List.cons_append, List.mem_cons, List.mem_append, List.mem_flatMap, List.not_mem_nil,
    or_false, not_or, not_exists, not_and]
  exact ⟨by decide, fun c _ => lineFeed_not_mem_quoteChar c, by decide⟩

omit [GoStd] in
theorem oneLine_names {names : List String} (h : ∀ n ∈ names, OneLine n) :
    OneLine (join (names.map fun n => "\"" ++ n ++ "\"") " ") := by
  induction names with
  | nil => decide
  | cons n names ih =>
    have hn : OneLine ("\"" ++ n ++ "\"") :=
      oneLine_append (oneLine_append (by decide) (h n (by simp))) (by decide)
    cases names with
    | nil => simpa [join] using hn
    | cons m names =>
      rw [List.map_cons, List.map_cons, join, String.intercalate_cons_cons]
      exact oneLine_append (oneLine_append hn (by decide))
        (ih fun x hx => h x (by simp [hx]))

theorem oneLine_paramsText {names : List String} (h : ∀ n ∈ names, OneLine n) (created : Int)
    (keyID : String) : OneLine (paramsText names created keyID) := by
  unfold paramsText
  refine oneLine_append (oneLine_append (oneLine_append (oneLine_append (oneLine_append
    (oneLine_append (by decide) (oneLine_names h)) (by decide)) (oneLine_toString _))
    (by decide)) (oneLine_quote _)) (by decide)

theorem coveredNames_mem (req : Request) (body : List UInt8) :
    ∀ n ∈ (coveredBySigner req body).map (·.1),
      n ∈ ["@method", "@path", "content-digest", "content-type"] := by
  unfold coveredBySigner
  by_cases hb : body = [] <;> by_cases hc : req.get "Content-Type" = "" <;> simp [hb, hc]

theorem oneLine_coveredNames (req : Request) (body : List UInt8) :
    ∀ n ∈ (coveredBySigner req body).map (·.1), OneLine n := by
  have hall : ∀ n ∈ ["@method", "@path", "content-digest", "content-type"], OneLine n := by decide
  exact fun n hn => hall n (coveredNames_mem req body n hn)

/-! ## Signing -/

/-- The base a signer signs. -/
def signedBase (req : Request) (keyID : String) (body : List UInt8) (created : Int) : String :=
  let covered := coveredBySigner req body
  baseText (covered.map componentLine) (paramsText (covered.map (·.1)) created keyID)

/-- `SignRequest`; `clock` is read when the given time is zero. -/
def signRequest (req : Request) (keyID : String) (secret body : List UInt8) (now clock : Time) :
    Except String Request :=
  if keyID = "" ∨ secret = [] then .error "keyid and secret are required"
  else
    let created := unixSeconds (if now = 0 then clock else now)
    let covered := coveredBySigner req body
    let params := paramsText (covered.map (·.1)) created keyID
    let mac := GoStd.hmacSHA256 secret (bytesOf (signedBase req keyID body created))
    let req :=
      if body ≠ [] then
        req.set "Content-Digest" ⟨contentDigestSHA256 body, oneLine_contentDigest body⟩
      else req
    .ok ((req.set "Signature-Input" ⟨"sig1=" ++ params,
        oneLine_append (by decide) (oneLine_paramsText (oneLine_coveredNames _ body) _ _)⟩).set
      "Signature" ⟨signatureText mac, oneLine_signatureText mac⟩)

/-! ## Parsing the headers -/

structure SignatureParams where
  components : List String := []
  created : Int := 0
  expires : Int := 0
  keyID : String := ""
  alg : String := "hmac-sha256"
  raw : String
  deriving DecidableEq

/-- One `;`-separated parameter. Parts without `=` and unknown names are
passed over; a later value replaces an earlier one. -/
def parseParam (sp : SignatureParams) (part : List Char) : Except String SignatureParams :=
  match cutChar '=' (trimSpaceList part) with
  | none => .ok sp
  | some (k, v) =>
    let v := trimChar '"' v
    match String.ofList k with
    | "created" =>
      match parseInt64 v with
      | .ok n => .ok { sp with created := n }
      | .error e => .error ("created: " ++ e)
    | "expires" =>
      match parseInt64 v with
      | .ok n => .ok { sp with expires := n }
      | .error e => .error ("expires: " ++ e)
    | "keyid" => .ok { sp with keyID := String.ofList v }
    | "alg" => .ok { sp with alg := String.ofList v }
    | _ => .ok sp

def parseParams (sp : SignatureParams) : List (List Char) → Except String SignatureParams
  | [] => .ok sp
  | part :: parts => do
    let sp ← parseParam sp part
    parseParams sp parts

omit [GoStd] in
/-- The component names of an inner list. -/
def componentsOf (list : List Char) : List String :=
  ((fields list).map (trimChar '"')).filterMap fun part =>
    if part = [] then none else some (String.ofList part)

def parseSignatureInput (header : String) : Except Failure SignatureParams :=
  let reject (text : String) : Except Failure SignatureParams := .error (.rejected text)
  match cutChar '=' (trimSpaceList header.toList) with
  | none => reject "missing signature label"
  | some (_, rest) =>
    let rest := trimSpaceList rest
    if !(List.isPrefixOf ['('] rest) then reject "missing component list"
    else
      match indexChar ')' rest with
      | none => reject "unterminated component list"
      | some close =>
        match slice rest 1 close, slice rest (close + 1) rest.length with
        | some list, some tail =>
          let sp : SignatureParams :=
            { components := componentsOf list, raw := String.ofList rest }
          let tail := if [';'].isPrefixOf tail then tail.drop 1 else tail
          match parseParams sp (splitChar ';' tail) with
          | .error e => reject e
          | .ok sp =>
            if sp.keyID = "" ∨ sp.created = 0 ∨ sp.components = [] then
              reject "incomplete signature params"
            else .ok sp
        | _, _ => .error .panic

omit [GoStd] in
def parseSignatureValue (header : String) : Except Failure (List Char) :=
  match cutChar '=' (trimSpaceList header.toList) with
  | none => .error (.rejected "missing signature label")
  | some (_, rest) =>
    let rest := trimSpaceList rest
    if !([':'].isPrefixOf rest && [':'].isSuffixOf rest) then
      .error (.rejected "signature must be :base64:")
    else
      match slice rest 1 (rest.length - 1) with
      | some value => .ok value
      | none => .error .panic

/-! ## Verification -/

/-- The line of one covered component, as the verifier sees the request. -/
def verifierLine (req : Request) (body : List UInt8) (c : String) : Except Failure String :=
  match c with
  | "@method" => .ok (componentLine (c, req.method.text))
  | "@path" => .ok (componentLine (c, req.escapedPath.text))
  | "content-digest" =>
    let digest := req.get "Content-Digest"
    if digest = "" then .error (.rejected "content-digest covered but missing")
    else if body ≠ [] ∧ digest ≠ contentDigestSHA256 body then
      .error (.rejected "content-digest mismatch")
    else .ok (componentLine (c, digest))
  | "content-type" =>
    let ct := req.get "Content-Type"
    if ct = "" then .error (.rejected "content-type covered but missing")
    else .ok (componentLine (c, ct))
  | _ => .error (.rejected ("unsupported covered component " ++ quote c))

def verifierLines (req : Request) (body : List UInt8) : List String → Except Failure (List String)
  | [] => .ok []
  | c :: cs => do
    let line ← verifierLine req body c
    let lines ← verifierLines req body cs
    return line :: lines

def buildSignatureBase (req : Request) (sp : SignatureParams) (body : List UInt8) :
    Except Failure String := do
  let lines ← verifierLines req body sp.components
  return baseText lines sp.raw

inductive Profile where
  | hmac
  | bearer
  deriving DecidableEq

structure Config where
  profiles : List Profile
  hmacKeys : GoMap (List UInt8)
  bearerTokens : List String
  maxSkew : Duration

/-- The checks of the parsed parameters, and the key they select. -/
def selectKey (cfg : Config) (sp : SignatureParams) (now : Time) : Except Failure (List UInt8) :=
  if !equalFold sp.alg "hmac-sha256" then
    .error (.rejected ("unsupported alg " ++ quote sp.alg))
  else
    match cfg.hmacKeys.lookup sp.keyID with
    | none => .error (.rejected "unknown keyid")
    | some secret =>
      let skew := subTime now (unixTime sp.created)
      if cfg.maxSkew < skew ∨ skew < wrapInt64 (-cfg.maxSkew) then
        .error (.rejected "created timestamp skew too large")
      else if 0 < sp.expires ∧ unixTime sp.expires < now then
        .error (.rejected "signature expired")
      else .ok secret

/-- The comparison of the sent signature with the computed one. -/
def checkMac (secret : List UInt8) (base : String) (sent : List Char) : Except Failure Unit :=
  match Base64.decode sent with
  | none => .error (.rejected ("signature base64: " ++ GoStd.base64Error (String.ofList sent)))
  | some want =>
    if want ≠ GoStd.hmacSHA256 secret (bytesOf base) then
      .error (.rejected "signature mismatch")
    else .ok ()

def verifyHMAC (cfg : Config) (req : Request) (body : List UInt8) (now : Time) :
    Except Failure Unit :=
  let input := req.get "Signature-Input"
  let sigHdr := req.get "Signature"
  if input = "" ∨ sigHdr = "" then .error (.rejected "missing Signature-Input or Signature")
  else do
    let sp ← parseSignatureInput input
    let secret ← selectKey cfg sp now
    let base ← buildSignatureBase req sp body
    let sent ← parseSignatureValue sigHdr
    checkMac secret base sent

def verifyBearer (cfg : Config) (req : Request) : Except Failure Unit :=
  let h := req.get "Authorization"
  if h = "" then .error (.rejected "missing Authorization")
  else if !hasPrefix h "Bearer " then .error (.rejected "Authorization must be Bearer")
  else if trimSpace (trimPrefix h "Bearer ") ∈ cfg.bearerTokens then .ok ()
  else .error (.rejected "invalid bearer token")

end Given

/-! ## The head of an upload -/

def postMethod : Line := ⟨"POST", by decide⟩

def artifactsPath : Line := ⟨"/v1/artifacts", by decide⟩

end Scintx.Auth
