/-
Scintx.Api.PurlGrammar — what `parsePurl` accepts, as a grammar.

`PurlSyntax` holds the parts of a text with the characters each may
contain. A text is accepted exactly if it is the text of such parts
(`PurlSyntax.parsePurl_text`, `parsePurl_ok`), and what is parsed is read
off them (`PurlSyntax.record`). The cut is unique because the parts are
over classes of characters that exclude what ends them.
-/
import Scintx.Api.Purl

namespace Scintx.Api

open Scintx.Lib

/-! ## The grammar -/

/-- What stands between the type and the tail. -/
inductive PurlPath where
  | absent
  | bare (name : List Char) (version : Option (List Char))
  | within (nameSpace name : List Char) (version : Option (List Char))

def versionText : Option (List Char) → List Char
  | none => []
  | some version => '@' :: version

namespace PurlPath

def text : PurlPath → List Char
  | .absent => []
  | .bare name version => '/' :: (name ++ versionText version)
  | .within nameSpace name version =>
    '/' :: (nameSpace ++ '/' :: (name ++ versionText version))

/-- The first `/` ends a namespace and the first `@` a name. -/
def WellFormed : PurlPath → Prop
  | .absent => True
  | .bare name version => '@' ∉ name ∧ '/' ∉ name ++ versionText version
  | .within nameSpace name _ => '/' ∉ nameSpace ∧ '@' ∉ name

def nameSpace : PurlPath → List Char
  | .within nameSpace _ _ => nameSpace
  | _ => []

def name : PurlPath → List Char
  | .absent => []
  | .bare name _ => name
  | .within _ name _ => name

def version : PurlPath → List Char
  | .absent => []
  | .bare _ version => version.getD []
  | .within _ _ version => version.getD []

end PurlPath

/-- The qualifiers: nothing at all, or segments after a `?`. -/
def queryText (segments : List (List Char)) : List Char :=
  if segments = [] then [] else '?' :: ['&'].intercalate segments

def fragmentText : Option (List Char) → List Char
  | none => []
  | some fragment => '#' :: fragment

structure PurlSyntax where
  type : List Char
  path : PurlPath
  segments : List (List Char)
  fragment : Option (List Char)
  type_ne : type ≠ []
  type_clean : ∀ c ∈ type, c ∉ ['/', '#', '?']
  path_wellFormed : path.WellFormed
  path_clean : ∀ c ∈ path.text, c ∉ ['?', '#']
  segments_clean : ∀ segment ∈ segments, '&' ∉ segment ∧ '#' ∉ segment ∧ '\n' ∉ segment
  fragment_clean : ∀ f ∈ fragment, '\n' ∉ f

def PurlSyntax.text (d : PurlSyntax) : String :=
  String.ofList ('p' :: 'k' :: 'g' :: ':' ::
    (d.type ++ (d.path.text ++ (queryText d.segments ++ fragmentText d.fragment))))

/-! ## Cutting a text into its parts -/

/-- A type, a path and a tail: disjoint classes of characters, so a text
has one such cut. -/
structure Groups (type path tail : List Char) : Prop where
  type_clean : ∀ c ∈ type, c ∉ ['/', '#', '?']
  path_start : path = [] ∨ ∃ body, path = '/' :: body
  path_clean : ∀ c ∈ path, c ∉ ['?', '#']
  tail_start : ∀ c ∈ tail.head?, c ∈ ['?', '#']

theorem exists_groups (cs : List Char) :
    ∃ type path tail, Groups type path tail ∧ cs = type ++ (path ++ tail) := by
  obtain ⟨type, rest, rfl, htype, hrest⟩ := scan_cases (fun c => c ∉ ['/', '#', '?']) cs
  have htype' : ∀ c ∈ type, c ∉ ['/', '#', '?'] := fun c hc => of_decide_eq_true (htype c hc)
  cases rest with
  | nil => exact ⟨type, [], [], ⟨htype', .inl rfl, by simp, by simp⟩, rfl⟩
  | cons c rest =>
    have hc : c ∈ ['/', '#', '?'] := not_not.mp (of_decide_eq_false (hrest c rfl))
    by_cases hslash : c = '/'
    · subst hslash
      obtain ⟨body, tail, rfl, hbody, htail⟩ := scan_cases (fun c => c ∉ ['?', '#']) rest
      refine ⟨type, '/' :: body, tail, ⟨htype', .inr ⟨body, rfl⟩, ?_, ?_⟩, rfl⟩
      · intro c hc
        rcases List.mem_cons.mp hc with rfl | hc
        · decide
        · exact of_decide_eq_true (hbody c hc)
      · intro c hc
        exact not_not.mp (of_decide_eq_false (htail c hc))
    · refine ⟨type, [], c :: rest, ⟨htype', .inl rfl, by simp, ?_⟩, rfl⟩
      rintro _ ⟨⟩
      rcases List.mem_cons.mp hc with rfl | hc
      · exact absurd rfl hslash
      · exact List.mem_reverse.mp hc

theorem Groups.matchPurl_eq {type path tail : List Char} (h : Groups type path tail) :
    matchPurl ('p' :: 'k' :: 'g' :: ':' :: (type ++ (path ++ tail))) =
      if type = [] ∨ '\n' ∈ tail then none else some (type, path, tail) := by
  have hstop : ∀ c ∈ (path ++ tail).head?, (decide (c ∉ ['/', '#', '?'])) = false := by
    intro c hc
    rcases h.path_start with rfl | ⟨body, rfl⟩
    · have htail := h.tail_start c hc
      simp only [List.mem_cons, List.not_mem_nil, or_false] at htail
      rcases htail with rfl | rfl <;> rfl
    · cases hc
      rfl
  obtain ⟨htake, hdrop⟩ := scan_append (fun c hc => decide_eq_true (h.type_clean c hc)) hstop
  have hrest : (if ['/'].isPrefixOf (path ++ tail)
      then (path ++ tail).takeWhile fun c => c ∉ ['?', '#'] else []) = path := by
    rcases h.path_start with rfl | ⟨body, rfl⟩
    · rw [if_neg]
      intro hslash
      cases tail with
      | nil => cases hslash
      | cons c tail =>
        obtain ⟨rest, hrest⟩ := List.isPrefixOf_iff_prefix.mp hslash
        obtain ⟨rfl, -⟩ := List.cons.inj hrest
        exact absurd (h.tail_start '/' rfl) (by decide)
    · rw [if_pos (by rfl)]
      refine (scan_append (fun c hc => decide_eq_true (h.path_clean c hc)) ?_).1
      intro c hc
      exact decide_eq_false (not_not_intro (h.tail_start c hc))
  change (if _ = [] ∨ _ then none else some _) = _
  rw [htake, hdrop, hrest, List.drop_left]

theorem Groups.matchPurl_some {type path tail : List Char} (h : Groups type path tail)
    (hne : type ≠ []) (hline : '\n' ∉ tail) :
    matchPurl ('p' :: 'k' :: 'g' :: ':' :: (type ++ (path ++ tail))) =
      some (type, path, tail) := by
  rw [h.matchPurl_eq, if_neg (not_or.mpr ⟨hne, hline⟩)]

/-- What is matched. -/
theorem matchPurl_cases {cs type path tail : List Char}
    (h : matchPurl cs = some (type, path, tail)) :
    Groups type path tail ∧ cs = 'p' :: 'k' :: 'g' :: ':' :: (type ++ (path ++ tail)) ∧
      type ≠ [] ∧ '\n' ∉ tail := by
  have hstart : ∃ rest, cs = 'p' :: 'k' :: 'g' :: ':' :: rest := by
    unfold matchPurl at h
    split at h
    · exact ⟨_, rfl⟩
    · cases h
  obtain ⟨rest, rfl⟩ := hstart
  obtain ⟨type', path', tail', hgroups, rfl⟩ := exists_groups rest
  rw [hgroups.matchPurl_eq] at h
  split at h
  · cases h
  · rename_i hok
    cases h
    exact ⟨hgroups, rfl, not_or.mp hok⟩

/-- The namespace, name and version of a path. -/
def splitPath (rest : List Char) : List Char × List Char × List Char :=
  match cutAt '/' (rest.drop 1) with
  | (name, none) => ([], splitVersion name)
  | (nameSpace, some name) => (nameSpace, splitVersion name)

theorem splitVersion_text {name : List Char} (version : Option (List Char)) (h : '@' ∉ name) :
    splitVersion (name ++ versionText version) = (name, version.getD []) := by
  unfold splitVersion cutAt
  cases version with
  | none =>
    rw [versionText, List.append_nil, cutChar_of_not_mem h]
    rfl
  | some v =>
    rw [versionText, cutChar_append v h]
    rfl

theorem splitPath_text {p : PurlPath} (h : p.WellFormed) :
    splitPath p.text = (p.nameSpace, p.name, p.version) := by
  cases p with
  | absent => rfl
  | bare name version =>
    simp only [splitPath, PurlPath.text, List.drop_one, List.tail_cons, cutAt,
      cutChar_of_not_mem h.2, splitVersion_text version h.1]
    rfl
  | within nameSpace name version =>
    simp only [splitPath, PurlPath.text, List.drop_one, List.tail_cons, cutAt,
      cutChar_append _ h.1, splitVersion_text version h.2]
    rfl

/-- Every text is a name with a version or without. -/
theorem exists_version (cs : List Char) :
    ∃ name version, '@' ∉ name ∧ cs = name ++ versionText version := by
  rcases cutChar_cases '@' cs with ⟨h, -⟩ | ⟨name, v, h, rfl, -⟩
  · exact ⟨cs, none, h, by simp [versionText]⟩
  · exact ⟨name, some v, h, rfl⟩

theorem exists_path {rest : List Char} (h : rest = [] ∨ ∃ body, rest = '/' :: body) :
    ∃ p : PurlPath, p.WellFormed ∧ p.text = rest := by
  rcases h with rfl | ⟨body, rfl⟩
  · exact ⟨.absent, trivial, rfl⟩
  · rcases cutChar_cases '/' body with ⟨h, -⟩ | ⟨ns, after, h, rfl, -⟩
    · obtain ⟨name, version, hname, rfl⟩ := exists_version body
      exact ⟨.bare name version, ⟨hname, h⟩, rfl⟩
    · obtain ⟨name, version, hname, rfl⟩ := exists_version after
      exact ⟨.within ns name version, ⟨h, hname⟩, rfl⟩

theorem path_text_cases (p : PurlPath) : p.text = [] ∨ ∃ body, p.text = '/' :: body := by
  cases p with
  | absent => exact .inl rfl
  | bare name version => exact .inr ⟨_, rfl⟩
  | within nameSpace name version => exact .inr ⟨_, rfl⟩

theorem head?_tail (segments : List (List Char)) (fragment : Option (List Char)) :
    ∀ c ∈ (queryText segments ++ fragmentText fragment).head?, c ∈ ['?', '#'] := by
  unfold queryText
  intro c hc
  split at hc
  · cases fragment with
    | none => cases hc
    | some f =>
      cases hc
      decide
  · cases hc
    decide

theorem not_mem_intercalate {c sep : Char} {parts : List (List Char)} (hsep : c ≠ sep)
    (h : ∀ part ∈ parts, c ∉ part) : c ∉ [sep].intercalate parts := by
  induction parts with
  | nil => simp
  | cons part parts ih =>
    have hparts := ih fun p hp => h p (List.mem_cons_of_mem _ hp)
    cases parts with
    | nil => simpa using h part (by simp)
    | cons next parts =>
      rw [List.intercalate_cons_cons, List.mem_append, List.mem_append]
      rintro ((hc | hc) | hc)
      · exact h part (by simp) hc
      · exact hsep (List.mem_singleton.mp hc)
      · exact hparts hc

theorem not_mem_queryText {c : Char} {segments : List (List Char)} (hamp : c ≠ '&') (hq : c ≠ '?')
    (h : ∀ segment ∈ segments, c ∉ segment) : c ∉ queryText segments := by
  unfold queryText
  split
  · simp
  · rw [List.mem_cons, not_or]
    exact ⟨hq, not_mem_intercalate hamp h⟩

namespace PurlSyntax

theorem line_not_mem_tail (d : PurlSyntax) :
    '\n' ∉ queryText d.segments ++ fragmentText d.fragment := by
  rw [List.mem_append, not_or]
  refine ⟨not_mem_queryText (by decide) (by decide) fun s hs => (d.segments_clean s hs).2.2, ?_⟩
  cases hf : d.fragment with
  | none => simp [fragmentText]
  | some f =>
    rw [fragmentText, List.mem_cons, not_or]
    exact ⟨by decide, d.fragment_clean f hf⟩

theorem groups (d : PurlSyntax) :
    Groups d.type d.path.text (queryText d.segments ++ fragmentText d.fragment) :=
  ⟨d.type_clean, path_text_cases d.path, d.path_clean, head?_tail _ _⟩

theorem matchPurl_text (d : PurlSyntax) :
    matchPurl d.text.toList =
      some (d.type, d.path.text, queryText d.segments ++ fragmentText d.fragment) := by
  rw [text, String.toList_ofList]
  exact d.groups.matchPurl_some d.type_ne d.line_not_mem_tail

end PurlSyntax

theorem exists_tail {tail : List Char} (hstart : ∀ c ∈ tail.head?, c ∈ ['?', '#'])
    (hline : '\n' ∉ tail) :
    ∃ segments fragment, tail = queryText segments ++ fragmentText fragment ∧
      (∀ segment ∈ segments, '&' ∉ segment ∧ '#' ∉ segment ∧ '\n' ∉ segment) ∧
      ∀ f ∈ fragment, '\n' ∉ f := by
  cases tail with
  | nil => exact ⟨[], none, rfl, by simp, by simp⟩
  | cons c body =>
    rw [List.mem_cons, not_or] at hline
    have hc := hstart c rfl
    simp only [List.mem_cons, List.not_mem_nil, or_false] at hc
    rcases hc with rfl | rfl
    · -- the segments of a query without a `#`
      have hsegments {query : List Char} (hhash : '#' ∉ query) (hq : '\n' ∉ query) :
          '?' :: query = queryText (splitChar '&' query) ∧
            ∀ segment ∈ splitChar '&' query, '&' ∉ segment ∧ '#' ∉ segment ∧ '\n' ∉ segment := by
        refine ⟨?_, ?_⟩
        · rw [splitChar_eq_splitOn, queryText, if_neg (List.splitOn_ne_nil '&' query),
            List.intercalate_splitOn]
        · intro segment hmem
          obtain ⟨hamp, hsub⟩ := mem_splitChar hmem
          exact ⟨hamp, fun h => hhash (hsub h), fun h => hq (hsub h)⟩
      rcases cutChar_cases '#' body with ⟨hhash, -⟩ | ⟨query, f, hhash, rfl, -⟩
      · obtain ⟨htext, hclean⟩ := hsegments hhash hline.2
        exact ⟨splitChar '&' body, none, by simp [← htext, fragmentText], hclean, by simp⟩
      · have hq : '\n' ∉ query ∧ '\n' ∉ f := by
          simpa using hline.2
        obtain ⟨htext, hclean⟩ := hsegments hhash hq.1
        refine ⟨splitChar '&' query, some f, ?_, hclean, ?_⟩
        · rw [← htext]
          rfl
        · rintro _ ⟨⟩
          exact hq.2
    · refine ⟨[], some body, rfl, by simp, ?_⟩
      rintro _ ⟨⟩
      exact hline.2

/-- The parts of a matched text. -/
theorem exists_syntax {s : String} {type path tail : List Char}
    (h : matchPurl s.toList = some (type, path, tail)) : ∃ d : PurlSyntax, s = d.text := by
  obtain ⟨hgroups, htext, hne, hline⟩ := matchPurl_cases h
  obtain ⟨p, hp, rfl⟩ := exists_path hgroups.path_start
  obtain ⟨segments, fragment, rfl, hsegments, hfragment⟩ := exists_tail hgroups.tail_start hline
  refine ⟨⟨type, p, segments, fragment, hne, hgroups.type_clean, hp, hgroups.path_clean,
    hsegments, hfragment⟩, ?_⟩
  exact String.toList_inj.mp (htext.trans (String.toList_ofList).symm)

/-! ## What is parsed -/

section Given

variable [GoStd]

theorem parseTail_text {segments : List (List Char)} {fragment : Option (List Char)}
    (hclean : ∀ segment ∈ segments, '&' ∉ segment ∧ '#' ∉ segment ∧ '\n' ∉ segment) :
    parseTail (queryText segments ++ fragmentText fragment) =
      (segments.foldl addQualifier ∅, splitHash (fragment.getD [])) := by
  by_cases hempty : segments = []
  · subst hempty
    cases fragment with
    | none => rfl
    | some f => rfl
  · have hsplit : splitChar '&' (['&'].intercalate segments) = segments := by
      rw [splitChar_eq_splitOn]
      exact List.splitOn_intercalate '&' (fun s hs => (hclean s hs).1) hempty
    have hhash : '#' ∉ ['&'].intercalate segments :=
      not_mem_intercalate (by decide) fun s hs => (hclean s hs).2.1
    rw [queryText, if_neg hempty, List.cons_append]
    simp only [parseTail]
    cases fragment with
    | none =>
      rw [fragmentText, List.append_nil, cutAt, cutChar_of_not_mem hhash]
      simp only [hsplit, Option.getD_none]
    | some f =>
      rw [fragmentText, cutAt, cutChar_append f hhash]
      simp only [hsplit, Option.getD_some]

/-- The case folding of namespaces and names. -/
def foldCase (type : String) (s : List Char) : String :=
  if type ∈ namespaceLowerTypes then toLower (String.ofList s) else String.ofList s

namespace PurlSyntax

/-- What is parsed from the parts. -/
def record (d : PurlSyntax) : ParsedPurl where
  type := toLower (String.ofList d.type)
  nameSpace := foldCase (toLower (String.ofList d.type)) d.path.nameSpace
  name := foldCase (toLower (String.ofList d.type)) d.path.name
  version := String.ofList d.path.version
  qualifiers := d.segments.foldl addQualifier ∅
  hash := String.ofList (splitHash (d.fragment.getD [])).1
  subpath := String.ofList (trimRightChar '/' (splitHash (d.fragment.getD [])).2)

/-- **A text is parsed into its parts.** -/
theorem parsePurl_text (d : PurlSyntax) : parsePurl d.text = .ok d.record := by
  have hpath := splitPath_text d.path_wellFormed
  have htail := @parseTail_text _ _ d.fragment d.segments_clean
  unfold parsePurl
  rw [d.matchPurl_text]
  unfold splitPath at hpath
  simp only [htail]
  cases hcut : cutAt '/' (d.path.text.drop 1) with
  | mk before after =>
    rw [hcut] at hpath
    cases after with
    | none =>
      simp only [Prod.mk.injEq] at hpath
      simp only [hpath.2, record, ← hpath.1, foldCase]
    | some name =>
      simp only [Prod.mk.injEq] at hpath
      simp only [hpath.2, record, ← hpath.1, foldCase]

end PurlSyntax

theorem parsePurl_ok {s : String} {p : ParsedPurl} (h : parsePurl s = .ok p) :
    ∃ d : PurlSyntax, s = d.text ∧ p = d.record := by
  cases hmatch : matchPurl s.toList with
  | none =>
    simp only [parsePurl, hmatch] at h
    cases h
  | some groups =>
    obtain ⟨d, rfl⟩ := exists_syntax hmatch
    rw [d.parsePurl_text] at h
    exact ⟨d, rfl, (Except.ok.inj h).symm⟩

end Given
end Scintx.Api
