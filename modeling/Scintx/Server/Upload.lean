/-
Scintx.Server.Upload — `POST /v1/artifacts` behind the gate
(`internal/server/server.go`).

The handler bounds the body with an `http.MaxBytesReader`, which fails
past the bound, so an upload that is too large is answered with an
error. The gate in front of it bounds the same body with an
`io.LimitReader`, which cuts. What the client sent therefore arrives
whole exactly when it fits the gate's bound or passes the gate unread
(`passed_body_intact_iff`).
-/
import Scintx.Auth.Middleware
import Scintx.Store.Artifacts

namespace Scintx.Server

open Scintx.Lib Scintx.Api Scintx.Auth Scintx.Store

/-- `1 << 30`. -/
def defaultMaxArtifactBody : Int := 1073741824

/-- The entry `artifact_ref` of the answer 201. -/
structure UploadedRef where
  uri : String
  mediaType : String
  sha256 : String
  deriving DecidableEq

inductive UploadAnswer where
  | created (ref : UploadedRef)
  | problem (details : ProblemDetails)
  deriving DecidableEq

/-- The answer to a body that could not be read. -/
def uploadProblem (limit : Int) : ReadFailure → ProblemDetails
  | .maxBytes _ =>
    problemDetails 413 "artifact_too_large"
      ("artifact exceeds max size of " ++ toString limit ++ " bytes")
  | .other text =>
    problemDetails 400 "invalid_request" ("failed to read artifact body: " ++ text)

section Given

variable [GoStd]

/-- `raw` is the value of `SCINTX_MAX_ARTIFACT_BYTES`. -/
def maxArtifactBodyBytes (raw : String) : Int :=
  let raw := trimSpace raw
  if raw = "" then defaultMaxArtifactBody
  else
    match parseInt64 raw.toList with
    | .error _ => defaultMaxArtifactBody
    | .ok n => if n ≤ 0 then defaultMaxArtifactBody else n

/-- The digest an artifact is filed under. -/
def artifactDigest (content : List UInt8) : String :=
  "sha256:" ++ hexEncode (GoStd.sha256 content)

/-- The handler under a bound; `storeErr` is the failure of `PutArtifact`. -/
def uploadWithin (limit : Int) (storeErr : Option String) (s : MemoryStore) (r : Inbound) :
    UploadAnswer × MemoryStore :=
  match (r.body.maxBytes limit).readAll with
  | .error e => (.problem (uploadProblem limit e), s)
  | .ok body =>
    match storeErr with
    | some e => (.problem (problemDetails 500 "store_error" e), s)
    | none =>
      (.created
        { uri := blobURN (artifactDigest body)
          mediaType := r.head.get "Content-Type"
          sha256 := hexEncode (GoStd.sha256 body) },
        s.putArtifact (artifactDigest body) body)

def uploadArtifact (raw : String) (storeErr : Option String) (s : MemoryStore) (r : Inbound) :
    UploadAnswer × MemoryStore :=
  uploadWithin (maxArtifactBodyBytes raw) storeErr s r

/-! ## What an upload stores -/

/-- An upload answers with an error, or names the digest of what was sent
and leaves it in the store under that digest. -/
def UploadIntact (sent : List UInt8) (out : UploadAnswer × MemoryStore) : Prop :=
  match out.1 with
  | .problem _ => True
  | .created ref =>
    ref.uri = blobURN (artifactDigest sent) ∧
      out.2.getArtifact (artifactDigest sent) = some sent

theorem uploadWithin_ok {limit : Int} (s : MemoryStore) {r : Inbound} {body : List UInt8}
    (hlen : r.body.bytes.length ≤ limit) (hread : r.body.readAll = .ok body) :
    uploadWithin limit none s r =
      (.created
        { uri := blobURN (artifactDigest body)
          mediaType := r.head.get "Content-Type"
          sha256 := hexEncode (GoStd.sha256 body) },
        s.putArtifact (artifactDigest body) body) := by
  simp only [uploadWithin, Stream.readAll_maxBytes hlen, hread]

theorem uploadIntact_of_readAll {limit : Int} {s : MemoryStore} {r : Inbound}
    (hlen : r.body.bytes.length ≤ limit) :
    UploadIntact r.body.bytes (uploadWithin limit none s r) := by
  cases hread : r.body.readAll with
  | error e =>
    simp only [uploadWithin, Stream.readAll_maxBytes hlen, hread]
    trivial
  | ok body =>
    have hbody : r.body.bytes = body := by rw [Stream.readAll_ok hread]
    rw [uploadWithin_ok s hlen hread, hbody]
    exact ⟨rfl, Finmap.lookup_insert _⟩

/-- An upload of a body that reads to its end stores that body, and no
other. -/
theorem uploadIntact_iff {limit : Int} (s : MemoryStore) (head : Request) {body : List UInt8}
    (hlen : body.length ≤ limit) (sent : List UInt8) :
    UploadIntact sent (uploadWithin limit none s { head := head, body := { bytes := body } }) ↔
      body = sent := by
  constructor
  · rw [uploadWithin_ok s hlen rfl]
    rintro ⟨huri, hstored⟩
    have hdigest : artifactDigest body = artifactDigest sent := by
      simpa [blobURN] using huri
    rw [← hdigest] at hstored
    simpa [MemoryStore.getArtifact, MemoryStore.putArtifact] using hstored
  · rintro rfl
    exact uploadIntact_of_readAll hlen

/-- **When the gate keeps a body whole.** Take a request the gate passes
on. Its handler reads what the client sent exactly when the path is
public or the body fits the gate's own bound of 33 MiB; and for an
upload within `SCINTX_MAX_ARTIFACT_BYTES`, that is exactly when the
upload fails or stores the complete content under its digest. -/
theorem passed_body_intact_iff {v : Verifier} {now : Time} {r r' : Inbound}
    (h : middleware (some v) now id r = .served r') (raw : String) (s : MemoryStore) :
    let Whole := isPublicPath r.head.path = true ∨ r.body.bytes.length ≤ authBodyLimit
    (r'.body.bytes = r.body.bytes ↔ Whole) ∧
      (r.body.bytes.length ≤ maxArtifactBodyBytes raw →
        (UploadIntact r.body.bytes (uploadArtifact raw none s r') ↔ Whole)) := by
  intro Whole
  rw [uploadArtifact]
  generalize maxArtifactBodyBytes raw = limit
  rcases middleware_served h with ⟨hpub, rfl⟩ | ⟨hpub, body, hread, rfl⟩
  · exact ⟨iff_of_true rfl (.inl hpub),
      fun hlen => iff_of_true (uploadIntact_of_readAll hlen) (.inl hpub)⟩
  · have hwhole : Whole ↔ r.body.bytes.length ≤ authBodyLimit := by
      simp [Whole, hpub]
    have hbody : body = r.body.bytes ↔ Whole := by
      rw [hwhole]
      exact Stream.readAll_limit_iff hread
    refine ⟨hbody, fun hlen => ?_⟩
    have hshort : body.length ≤ limit := by
      have := congrArg List.length (Stream.readAll_limit hread)
      rw [List.length_take] at this
      omega
    exact (uploadIntact_iff s r.head hshort _).trans hbody

end Given

/-! ## An upload that is cut -/

def tokenVerifier : Verifier where
  cfg := { profiles := [.bearer], hmacKeys := ∅, bearerTokens := ["t"], maxSkew := 0 }
  enabled := rfl

def tokenHead : Request where
  method := postMethod
  path := "/v1/artifacts"
  escapedPath := artifactsPath
  header := Finmap.singleton "Authorization" ⟨"Bearer t", by decide⟩

def tokenUpload (body : List UInt8) : Inbound where
  head := tokenHead
  body := { bytes := body }

/-- The verifier of a token does not look at the body. -/
theorem tokenUpload_passes {body read : List UInt8}
    (h : ((tokenUpload body).body.limit authBodyLimit).readAll = .ok read) :
    @middleware GoStd.plain _ (some tokenVerifier) 0 id (tokenUpload body) =
      .served (tokenUpload read) := by
  let _ := GoStd.plain
  have hpath : isPublicPath tokenHead.path = false := by decide
  have htoken : verifyBearer tokenVerifier.cfg tokenHead = .ok () := by decide
  have hverify : tokenVerifier.verify tokenHead read 0 = .ok () := by
    simp only [Verifier.verify, tokenVerifier, verifyProfiles, verifyProfile] at htoken ⊢
    rw [htoken]
  simp only [middleware, readBody, h]
  simp only [tokenUpload, hpath, hverify]
  rfl

theorem tokenUpload_stored {raw : String} (s : MemoryStore) {body : List UInt8}
    (hlen : body.length ≤ @maxArtifactBodyBytes GoStd.plain raw) :
    ∃ ref, @uploadArtifact GoStd.plain raw none s (tokenUpload body) =
      (.created ref, s.putArtifact (@artifactDigest GoStd.plain body) body) :=
  ⟨_, @uploadWithin_ok GoStd.plain _ s (tokenUpload body) body hlen rfl⟩

theorem passed_body_intact_iff_small :
    @UploadIntact GoStd.plain [7]
      (@uploadArtifact GoStd.plain "" none {} (tokenUpload [7])) := by
  let _ := GoStd.plain
  exact ((passed_body_intact_iff (tokenUpload_passes rfl) "" {}).2 (by decide)).mpr
    (.inr (by decide))

/-- A client with a valid token uploads one byte more than 33 MiB and is
answered 201; the store holds the first 33 MiB, under their digest. -/
theorem upload_cut_at_gate :
    ∃ r', @middleware GoStd.plain _ (some tokenVerifier) 0 id
        (tokenUpload (List.replicate 34603009 0)) = .served r' ∧
      r'.body.bytes = List.replicate 34603008 0 ∧
      (34603009 : Int) ≤ @maxArtifactBodyBytes GoStd.plain "" ∧
      ∃ ref, @uploadArtifact GoStd.plain "" none {} r' =
        (.created ref, ({} : MemoryStore).putArtifact
          (@artifactDigest GoStd.plain (List.replicate 34603008 0))
          (List.replicate 34603008 0)) := by
  have hlen : (List.replicate 34603009 (0 : UInt8)).length = 34603009 := List.length_replicate
  have hread := Stream.readAll_limit_long (s := (tokenUpload (List.replicate 34603009 0)).body)
    (Nat.le_trans (Nat.le_succ 34603008) (Nat.le_of_eq hlen.symm))
  have hcut : (List.replicate 34603009 (0 : UInt8)).take authBodyLimit =
      List.replicate 34603008 0 := List.take_replicate
  have hmax : @maxArtifactBodyBytes GoStd.plain "" = 1073741824 := rfl
  refine ⟨_, tokenUpload_passes (hread.trans (congrArg Except.ok hcut)), rfl, ?_,
    tokenUpload_stored {} ?_⟩
  · rw [hmax]
    decide
  · rw [hmax, List.length_replicate]
    decide

end Scintx.Server
