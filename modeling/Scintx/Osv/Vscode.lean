/-
Scintx.Osv.Vscode — how the OSV provider reads a PURL of a VS Code
extension (`extensions/providers/osv/vscode.go`).

OSV files these extensions under a registry and a dotted id, so the
provider cuts the PURL apart once more, with a splitter of its own. Both
splitters end the type at the first `/` and the path at `?` or `#`. Then
`parsePurl` ends the namespace at the first `/` and looks for `@` in what
follows; `splitVSCodePURL` looks for `@` in the whole path and for `/`
before it. `splitVSCodePURL_agrees_iff` says for which PURLs this makes a
difference: exactly for those with an `@` in the namespace.
-/
import Scintx.Api.PurlTheorems

namespace Scintx.Osv

open Scintx.Lib Scintx.Api

/-- What is used of `net/url`. -/
class GoUrl where
  /-- `url.QueryUnescape`, without the text of its error. -/
  queryUnescape : String → Option String
  /-- The scheme, host and path of `url.Parse`, without its error. -/
  parse : String → Option (String × String × String)

/-- What `splitVSCodePURL` returns. -/
structure VscodePurl where
  type : String
  nameSpace : String
  name : String
  version : String
  qualifiers : GoMap String

structure VscodeEcosystemQuery where
  ecosystem : String
  name : String
  version : String
  deriving DecidableEq, Repr

def defaultVSCodeEcosystems : List String :=
  ["VSCode:https://open-vsx.org", "VSCode:https://marketplace.visualstudio.com"]

section Given

variable [GoStd] [GoUrl]

/-- A qualifier value, unescaped where that is possible. -/
def unescaped (value : String) : String :=
  (GoUrl.queryUnescape value).getD value

/-- One `key=value` of the tail. -/
def addUnescaped (m : GoMap String) (kv : List Char) : GoMap String :=
  match cutChar '=' kv with
  | none => m
  | some (key, value) => m.insert (toLower (String.ofList key)) (unescaped (String.ofList value))

/-- The namespace, name and version of a path: the version first. -/
def splitVSCodePath (path : List Char) : List Char × List Char × List Char :=
  let (path, version) := splitVersion path
  match cutAt '/' path with
  | (name, none) => ([], name, version)
  | (nameSpace, some name) => (nameSpace, name, version)

def splitVSCodeTail (tail : List Char) : GoMap String :=
  match tail with
  | '?' :: body => (splitChar '&' (cutAt '#' body).1).foldl addUnescaped ∅
  | _ => ∅

def splitVSCodePURL (purl : String) : Except String VscodePurl :=
  match purl.toList with
  | 'p' :: 'k' :: 'g' :: ':' :: rest =>
    let tail := rest.dropWhile fun c => c ∉ ['?', '#']
    match cutChar '/' (rest.takeWhile fun c => c ∉ ['?', '#']) with
    | none => .error ("invalid purl: " ++ purl)
    | some (typ, path) =>
      let (nameSpace, name, version) := splitVSCodePath path
      .ok { type := toLower (String.ofList typ)
            nameSpace := String.ofList nameSpace
            name := String.ofList name
            version := String.ofList version
            qualifiers := splitVSCodeTail tail }
  | _ => .error ("invalid purl: " ++ purl)

/-- The registry of a `repository_url`. -/
def vscodeEcosystemFromRepoURL (raw : String) : Except String String :=
  match GoUrl.parse raw with
  | none => .error ("invalid repository_url " ++ quote raw)
  | some (scheme, host, path) =>
    if scheme = "" ∨ host = "" then .error ("invalid repository_url " ++ quote raw)
    else
      let base := trimRightChar '/' (scheme ++ "://" ++ host ++ path).toList
      .ok ("VSCode:" ++ String.ofList base)

def vscodeExtensionQueries (canonicalPURL : String) :
    Except String (List VscodeEcosystemQuery) := do
  let p ← splitVSCodePURL canonicalPURL
  if p.type ≠ "vscode-extension" then
    .error ("not a vscode-extension purl: " ++ p.type)
  else if p.nameSpace = "" ∨ p.name = "" then
    .error ("vscode-extension purl needs publisher/name: " ++ canonicalPURL)
  else
    let extID := p.nameSpace ++ "." ++ p.name
    let repoURL := trimSpace ((p.qualifiers.lookup "repository_url").getD "")
    if repoURL ≠ "" then
      let eco ← vscodeEcosystemFromRepoURL repoURL
      .ok [{ ecosystem := eco, name := extID, version := p.version }]
    else
      .ok (defaultVSCodeEcosystems.map fun eco =>
        { ecosystem := eco, name := extID, version := p.version })

/-! ## The two splitters -/

section Path

omit [GoStd] [GoUrl]

theorem splitVSCodePath_bare {name : List Char} (version : Option (List Char)) (hat : '@' ∉ name)
    (hslash : '/' ∉ name) :
    splitVSCodePath (name ++ versionText version) = ([], name, version.getD []) := by
  simp only [splitVSCodePath, splitVersion_text version hat, cutAt, cutChar_of_not_mem hslash]

theorem splitVSCodePath_within {nameSpace name : List Char} (version : Option (List Char))
    (hns : '@' ∉ nameSpace) (hat : '@' ∉ name) (hslash : '/' ∉ nameSpace) :
    splitVSCodePath (nameSpace ++ '/' :: (name ++ versionText version)) =
      (nameSpace, name, version.getD []) := by
  have hfront : '@' ∉ nameSpace ++ '/' :: name := by
    simp [hns, hat]
  have hbody : nameSpace ++ '/' :: (name ++ versionText version) =
      (nameSpace ++ '/' :: name) ++ versionText version := by
    simp
  rw [hbody]
  simp only [splitVSCodePath, splitVersion_text version hfront, cutAt, cutChar_append name hslash]

/-- An `@` in the namespace ends the name before it. -/
theorem splitVSCodePath_early {nameSpace rest : List Char} (hns : '@' ∈ nameSpace)
    (hslash : '/' ∉ nameSpace) : (splitVSCodePath (nameSpace ++ '/' :: rest)).1 = [] := by
  rcases cutChar_cases '@' nameSpace with ⟨hnone, -⟩ | ⟨a, b, ha, rfl, -⟩
  · exact absurd hns hnone
  · have hbody : a ++ '@' :: b ++ '/' :: rest = a ++ versionText (some (b ++ '/' :: rest)) := by
      simp [versionText]
    rw [hbody, splitVSCodePath_bare _ ha]
    exact fun hmem => hslash (List.mem_append_left _ hmem)

/-- The splitters agree on a path if and only if its namespace has no
`@`. -/
theorem splitVSCodePath_eq_iff {p : PurlPath} (h : p.WellFormed) {body : List Char}
    (hbody : p.text = '/' :: body) :
    splitVSCodePath body = (p.nameSpace, p.name, p.version) ↔ '@' ∉ p.nameSpace := by
  cases p with
  | absent => cases hbody
  | bare name version =>
    cases hbody
    have hslash : '/' ∉ name := fun hmem => h.2 (List.mem_append_left _ hmem)
    rw [splitVSCodePath_bare version h.1 hslash]
    simp [PurlPath.nameSpace, PurlPath.name, PurlPath.version]
  | within nameSpace name version =>
    cases hbody
    change _ = (nameSpace, name, version.getD []) ↔ '@' ∉ nameSpace
    constructor
    · intro heq hns
      have hempty := @splitVSCodePath_early _ (name ++ versionText version) hns h.1
      rw [heq] at hempty
      obtain rfl : nameSpace = [] := hempty
      cases hns
    · intro hns
      exact splitVSCodePath_within version hns h.2 h.1

end Path

/-- The keys are the same, and a value of one is the unescaped value of
the other. -/
theorem lookup_foldl_addUnescaped (segments : List (List Char)) {m m' : GoMap String}
    (h : ∀ k, m'.lookup k = (m.lookup k).map unescaped) (k : String) :
    (segments.foldl addUnescaped m').lookup k =
      ((segments.foldl addQualifier m).lookup k).map unescaped := by
  induction segments generalizing m m' with
  | nil => exact h k
  | cons kv segments ih =>
    refine ih fun k => ?_
    unfold addUnescaped addQualifier
    cases cutChar '=' kv with
    | none => exact h k
    | some pair =>
      by_cases hk : k = toLower (String.ofList pair.1)
      · subst hk
        simp only [Finmap.lookup_insert, Option.map_some]
      · simp only [Finmap.lookup_insert_of_ne _ hk, h k]

theorem lookup_splitVSCodeTail (tail : List Char) (k : String) :
    (splitVSCodeTail tail).lookup k = ((parseTail tail).1.lookup k).map unescaped := by
  have hnone (k : String) : (∅ : GoMap String).lookup k =
      ((∅ : GoMap String).lookup k).map unescaped := by
    simp
  unfold splitVSCodeTail
  split
  · exact lookup_foldl_addUnescaped _ hnone k
  · rename_i hquery
    unfold parseTail
    split
    · rename_i body
      exact absurd rfl (hquery body)
    · exact hnone k
    · exact hnone k

/-- What the second splitter makes of the parts of a PURL. -/
theorem splitVSCodePURL_text (d : PurlSyntax) {body : List Char}
    (hbody : d.path.text = '/' :: body) :
    splitVSCodePURL d.text = .ok
      { type := d.record.type
        nameSpace := String.ofList (splitVSCodePath body).1
        name := String.ofList (splitVSCodePath body).2.1
        version := String.ofList (splitVSCodePath body).2.2
        qualifiers := splitVSCodeTail (queryText d.segments ++ fragmentText d.fragment) } := by
  have hfront : ∀ c ∈ d.type ++ d.path.text, (decide (c ∉ ['?', '#'])) = true := by
    intro c hc
    refine decide_eq_true ?_
    rcases List.mem_append.mp hc with hc | hc
    · have hclean := d.type_clean c hc
      simp only [List.mem_cons, not_or] at hclean ⊢
      exact ⟨hclean.2.2.1, hclean.2.1, List.not_mem_nil⟩
    · exact d.path_clean c hc
  have hstop : ∀ c ∈ (queryText d.segments ++ fragmentText d.fragment).head?,
      (decide (c ∉ ['?', '#'])) = false :=
    fun c hc => decide_eq_false (not_not_intro (head?_tail d.segments d.fragment c hc))
  obtain ⟨htake, hdrop⟩ := scan_append hfront hstop
  have hslash : '/' ∉ d.type := fun hmem => d.type_clean '/' hmem (by decide)
  rw [List.append_assoc] at htake hdrop
  simp only [splitVSCodePURL, PurlSyntax.text, String.toList_ofList, htake, hdrop]
  rw [hbody, cutChar_append body hslash]
  rfl

/-- **Where the splitters agree.** On every canonical PURL of a VS Code
extension both succeed, with the same type and the same qualifiers, up to
unescaping. They give the same namespace, name and version if and only if
there is no `@` in the namespace. -/
theorem splitVSCodePURL_agrees_iff (hl : GoStd.LowerLaws) {s₀ s : String}
    (hs : canonicalPurl s₀ = .ok s) (htype : purlType s = .ok "vscode-extension") :
    ∃ p q, parsePurl s = .ok p ∧ splitVSCodePURL s = .ok q ∧ q.type = p.type ∧
      (∀ k, q.qualifiers.lookup k = (p.qualifiers.lookup k).map unescaped) ∧
      ((q.nameSpace = p.nameSpace ∧ q.name = p.name ∧ q.version = p.version) ↔
        '@' ∉ p.nameSpace.toList) := by
  obtain ⟨-, d, -, rfl, -, body, hbody⟩ := canonicalPurl_accepted hl hs
  have hparse := d.parsePurl_text
  simp only [purlType, hparse, Except.ok.injEq] at htype
  refine ⟨_, _, hparse, splitVSCodePURL_text d hbody, rfl, fun k => ?_, ?_⟩
  · have hquals := congrArg Prod.fst (@parseTail_text _ _ d.fragment d.segments_clean)
    rw [lookup_splitVSCodeTail, hquals]
    rfl
  · -- the type is not one of those whose names are folded
    have hfold (cs : List Char) : foldCase d.record.type cs = String.ofList cs := by
      rw [foldCase, htype, if_neg (by decide)]
    rw [d.record_nameSpace, d.record_name, hfold, hfold, String.toList_ofList,
      ← splitVSCodePath_eq_iff d.path_wellFormed hbody]
    simp only [PurlSyntax.record, String.ofList_inj, Prod.ext_iff]

end Given

/-- Texts without escapes, and `https` addresses. -/
@[reducible] def GoUrl.plain : GoUrl where
  queryUnescape := some
  parse raw :=
    if hasPrefix raw "https://" then
      let rest := raw.toList.drop 8
      some ("https", String.ofList (rest.takeWhile (· ≠ '/')),
        String.ofList (rest.dropWhile (· ≠ '/')))
    else none

/-- A scoped publisher: one splitter reads the extension `c` of `a@b`, the
other an extension `a` without a publisher. -/
theorem scoped_publisher_misread :
    let _ := GoStd.plain
    let _ := GoUrl.plain
    let s := "pkg:vscode-extension/a@b/c@1"
    canonicalPurl s = .ok s ∧
    (parsePurl s).map (fun p => (p.type, p.nameSpace, p.name, p.version)) =
      .ok ("vscode-extension", "a@b", "c", "1") ∧
    (splitVSCodePURL s).map (fun q => (q.type, q.nameSpace, q.name, q.version)) =
      .ok ("vscode-extension", "", "a", "b/c@1") := by
  intro _ _ s
  refine ⟨?_, ?_, ?_⟩ <;> decide +kernel

/-- The extension of the source's example is read alike. -/
theorem splitVSCodePURL_agrees_iff_publisher :
    let _ := GoStd.plain
    let _ := GoUrl.plain
    let s := "pkg:vscode-extension/checkmarx/ast-results@2.56.0?repository_url=https://open-vsx.org"
    ∃ p q, parsePurl s = .ok p ∧ splitVSCodePURL s = .ok q ∧
      q.nameSpace = p.nameSpace ∧ q.name = p.name ∧ q.version = p.version ∧
      vscodeExtensionQueries s = .ok [{ ecosystem := "VSCode:https://open-vsx.org"
                                        name := "checkmarx.ast-results"
                                        version := "2.56.0" }] := by
  intro _ _ s
  let r : ParsedPurl :=
    { type := "vscode-extension", nameSpace := "checkmarx", name := "ast-results"
      version := "2.56.0"
      qualifiers := Finmap.singleton "repository_url" "https://open-vsx.org" }
  have hr : parsePurl s = .ok r := by decide +kernel
  have htext : r.text = s := by decide +kernel
  have hcanonical : canonicalPurl s = .ok s := by simp only [canonicalPurl, hr, htext]
  have htype : purlType s = .ok "vscode-extension" := by simp only [purlType, hr, r]
  obtain ⟨p, q, hp, hq, -, -, hiff⟩ := splitVSCodePURL_agrees_iff lowerLaws_plain hcanonical htype
  obtain rfl : r = p := Except.ok.inj (hr.symm.trans hp)
  obtain ⟨hns, hname, hversion⟩ := hiff.mpr (by decide)
  exact ⟨r, q, hp, hq, hns, hname, hversion, by decide +kernel⟩

end Scintx.Osv
