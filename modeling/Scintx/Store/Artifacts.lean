/-
Scintx.Store.Artifacts — content by reference (`api/blob.go`,
`internal/scintx/artifact_content.go`).

An uploaded artifact is filed under its digest and named by a URN of it.
Before providers are called, a submission that names such a URN has the
content loaded; any other reference is left alone.
-/
import Scintx.Store.Memory

namespace Scintx.Store

open Scintx.Lib Scintx.Api

def blobURNStart : String := "urn:scintx:blob:"

def blobURN (digest : String) : String := blobURNStart ++ digest

def localBlobDigest (uri : String) : Option String :=
  let uri := trimSpace uri
  if !hasPrefix uri blobURNStart then none
  else
    let digest := trimPrefix uri blobURNStart
    if digest = "" then none else some digest

/-- The artifact with its content loaded. A local blob that is missing is
an error; `storeErr` is the failure of `GetArtifact`. -/
def hydrateLocalBlob (s : MemoryStore) (storeErr : Option String) (artifact : Artifact) :
    Except String Artifact :=
  match artifact.contentRef with
  | none => .ok artifact
  | some ref =>
    match localBlobDigest ref.uri with
    | none => .ok artifact
    | some digest =>
      match storeErr with
      | some e => .error ("load artifact " ++ digest ++ ": " ++ e)
      | none =>
        match s.getArtifact digest with
        | none => .error ("local blob " ++ digest ++ " is missing from the store")
        | some body => .ok { artifact with content := body }

end Scintx.Store
