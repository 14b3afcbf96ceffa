/-
Scintx.Api.PurlTheorems — `CanonicalPurl` against `parsePurl`.

`CanonicalPurl` prints a record and leaves out what is empty. Two of the
omissions change the meaning of what follows them. Without a namespace, a
`/` in the name or the version is read as the end of a namespace; without
a hash, the subpath is printed with no `#` before it and is read as a
piece of what stands there. A record with neither, and no other, is read
back as it was (`canonicalPurl_round_trip`).
-/
import Mathlib.Data.List.DropRight
import Scintx.Api.PurlGrammar

namespace Scintx.Api

open Scintx.Lib

/-! ## Pieces of a text -/

theorem splitHash_spec (cs : List Char) :
    cs = (splitHash cs).1 ++ (splitHash cs).2 ∧ '/' ∉ (splitHash cs).1 ∧
      ∀ c ∈ (splitHash cs).2.head?, c = '/' := by
  unfold splitHash cutAt
  rcases cutChar_cases '/' cs with ⟨h, hcut⟩ | ⟨a, b, h, rfl, hcut⟩
  · rw [hcut]
    exact ⟨(List.append_nil cs).symm, h, by simp⟩
  · rw [hcut]
    refine ⟨rfl, h, ?_⟩
    rintro _ ⟨⟩
    rfl

theorem splitHash_append {hash sub : List Char} (hhash : '/' ∉ hash)
    (hsub : ∀ c ∈ sub.head?, c = '/') : splitHash (hash ++ sub) = (hash, sub) := by
  unfold splitHash cutAt
  cases sub with
  | nil => rw [List.append_nil, cutChar_of_not_mem hhash]
  | cons c sub =>
    obtain rfl := hsub c rfl
    rw [cutChar_append sub hhash]

theorem trimRightChar_start (c : Char) (cs : List Char) : trimRightChar c cs <+: cs :=
  List.rdropWhile_prefix _ _

theorem trimRightChar_trimRightChar (c : Char) (cs : List Char) :
    trimRightChar c (trimRightChar c cs) = trimRightChar c cs :=
  List.rdropWhile_idempotent _ _

theorem mem_head?_of_start {l l' : List Char} (h : l <+: l') {c : Char} (hc : c ∈ l.head?) :
    c ∈ l'.head? := by
  obtain ⟨t, rfl⟩ := h
  cases l with
  | nil => cases hc
  | cons d l => exact hc

namespace PurlPath

theorem nameSpace_subset (p : PurlPath) : p.nameSpace ⊆ p.text := by
  intro c hc
  cases p <;> simp_all [nameSpace, text]

theorem name_subset (p : PurlPath) : p.name ⊆ p.text := by
  intro c hc
  cases p <;> simp_all [name, text]

theorem version_subset (p : PurlPath) : p.version ⊆ p.text := by
  intro c hc
  cases p with
  | absent => cases hc
  | bare name version =>
    cases version with
    | none => cases hc
    | some v => simp_all [PurlPath.version, text, versionText]
  | within nameSpace name version =>
    cases version with
    | none => cases hc
    | some v => simp_all [PurlPath.version, text, versionText]

/-- The namespace and the name of a path end where they end. -/
theorem WellFormed.clean {p : PurlPath} (h : p.WellFormed) :
    '/' ∉ p.nameSpace ∧ '@' ∉ p.name := by
  cases p with
  | absent => simp [PurlPath.nameSpace, PurlPath.name]
  | bare name version => exact ⟨by simp [PurlPath.nameSpace], h.1⟩
  | within nameSpace name version => exact h

end PurlPath

/-! ## What is printed -/

namespace ParsedPurl

def versionPart (p : ParsedPurl) : Option (List Char) :=
  if p.version = "" then none else some p.version.toList

def pathText (p : ParsedPurl) : List Char :=
  (if p.nameSpace = "" then [] else '/' :: p.nameSpace.toList) ++
    '/' :: (p.name.toList ++ versionText p.versionPart)

def segment (m : GoMap String) (k : String) : List Char :=
  k.toList ++ '=' :: ((m.lookup k).getD "").toList

def segments (p : ParsedPurl) : List (List Char) :=
  (GoMap.sortedKeys p.qualifiers).map (segment p.qualifiers)

def hashText (p : ParsedPurl) : List Char :=
  if p.hash = "" then [] else '#' :: p.hash.toList

theorem segments_eq_nil (p : ParsedPurl) : p.segments = [] ↔ p.qualifiers = ∅ := by
  rw [segments, List.map_eq_nil_iff]
  constructor
  · intro h
    refine Finmap.ext_lookup ?_
    intro k
    rw [Finmap.lookup_empty, Finmap.lookup_eq_none, ← GoMap.mem_sortedKeys, h]
    exact List.not_mem_nil
  · intro h
    rw [h]
    rfl

theorem toList_query (p : ParsedPurl) :
    (if p.qualifiers ≠ ∅ then
      "?" ++ join ((GoMap.sortedKeys p.qualifiers).map fun k =>
        k ++ "=" ++ (p.qualifiers.lookup k).getD "") "&"
    else "").toList = queryText p.segments := by
  by_cases h : p.qualifiers = ∅
  · rw [if_neg (not_not_intro h), queryText, if_pos (p.segments_eq_nil.mpr h)]
    rfl
  · rw [if_pos h, queryText, if_neg (mt p.segments_eq_nil.mp h), String.toList_append, join,
      String.toList_intercalate, List.map_map]
    have hmap : (GoMap.sortedKeys p.qualifiers).map
        (String.toList ∘ fun k => k ++ "=" ++ (p.qualifiers.lookup k).getD "") = p.segments := by
      refine List.map_congr_left fun k _ => ?_
      simp [segment]
    rw [hmap]
    rfl

theorem toList_text (p : ParsedPurl) :
    p.text.toList = 'p' :: 'k' :: 'g' :: ':' :: (p.type.toList ++ (p.pathText ++
      (queryText p.segments ++ (p.hashText ++ p.subpath.toList)))) := by
  have hns : (if p.nameSpace ≠ "" then "/" ++ p.nameSpace else "").toList =
      if p.nameSpace = "" then [] else '/' :: p.nameSpace.toList := by
    split <;> simp_all
  have hversion : (if p.version ≠ "" then "@" ++ p.version else "").toList =
      versionText p.versionPart := by
    unfold versionPart
    split <;> simp_all [versionText]
  have hhash : (if p.hash ≠ "" then "#" ++ p.hash else "").toList = p.hashText := by
    unfold hashText
    split <;> simp_all
  unfold text
  simp only [String.toList_append, toList_query, hns, hversion, hhash, pathText,
    List.append_assoc, List.cons_append]
  rfl

theorem pathText_start (p : ParsedPurl) : ∃ body, p.pathText = '/' :: body := by
  unfold pathText
  split
  · exact ⟨_, rfl⟩
  · exact ⟨_, rfl⟩

/-- The parts of what is printed. -/
def canonicalPath (p : ParsedPurl) : PurlPath :=
  if p.nameSpace = "" then .bare p.name.toList p.versionPart
  else .within p.nameSpace.toList p.name.toList p.versionPart

def fragmentPart (p : ParsedPurl) : Option (List Char) :=
  if p.hash = "" then none else some (p.hash.toList ++ p.subpath.toList)

theorem fragmentText_part (p : ParsedPurl) (h : p.hash = "" → p.subpath = "") :
    fragmentText p.fragmentPart = p.hashText ++ p.subpath.toList := by
  unfold fragmentPart hashText
  split
  · rename_i hempty
    rw [h hempty]
    rfl
  · rfl

theorem getD_versionPart (p : ParsedPurl) : p.versionPart.getD [] = p.version.toList := by
  unfold versionPart
  split <;> simp_all

theorem canonicalPath_spec (p : ParsedPurl) :
    p.canonicalPath.text = p.pathText ∧ p.canonicalPath.nameSpace = p.nameSpace.toList ∧
      p.canonicalPath.name = p.name.toList ∧ p.canonicalPath.version = p.version.toList := by
  unfold canonicalPath pathText
  split
  · rename_i hns
    rw [hns]
    exact ⟨rfl, rfl, rfl, p.getD_versionPart⟩
  · exact ⟨rfl, rfl, rfl, p.getD_versionPart⟩

theorem mem_versionText {p : ParsedPurl} {c : Char} (hc : c ≠ '@') :
    c ∈ versionText p.versionPart ↔ c ∈ p.version.toList := by
  unfold versionPart
  split
  · rename_i hempty
    simp [hempty, versionText]
  · simp [versionText, hc]

/-- Nothing printed is read as something else: a `/` in the name or the
version stands behind a namespace, and a subpath behind a hash. -/
structure ReadsBack (p : ParsedPurl) : Prop where
  path : p.nameSpace = "" → '/' ∉ p.name.toList ∧ '/' ∉ p.version.toList
  subpath : p.hash = "" → p.subpath = ""

/-- A version is printed no longer than it was read. -/
theorem length_versionPart_le {p : ParsedPurl} {version : Option (List Char)}
    (h : p.version.toList = version.getD []) :
    (versionText p.versionPart).length ≤ (versionText version).length := by
  unfold versionPart
  split
  · exact Nat.zero_le _
  · rename_i hne
    cases version with
    | none => exact absurd (String.toList_inj.mp h) hne
    | some v =>
      rw [h]
      exact Nat.le_refl _

/-- No `#` stands in a type, a path or qualifiers. -/
theorem hash_not_mem_front {q : List (List Char)} {t r : List Char}
    (ht : ∀ c ∈ t, c ∉ ['/', '#', '?']) (hr : ∀ c ∈ r, c ∉ ['?', '#'])
    (hq : ∀ s ∈ q, '&' ∉ s ∧ '#' ∉ s ∧ '\n' ∉ s) :
    '#' ∉ 'p' :: 'k' :: 'g' :: ':' :: (t ++ (r ++ queryText q)) := by
  have hquery : '#' ∉ queryText q :=
    not_mem_queryText (by decide) (by decide) fun s hs => (hq s hs).2.1
  simp only [List.mem_cons, List.mem_append, not_or]
  exact ⟨by decide, by decide, by decide, by decide, fun hmem => ht '#' hmem (by decide),
    fun hmem => hr '#' hmem (by decide), hquery⟩

end ParsedPurl

section Given

variable [GoStd]

/-! ## What a parsed record is like -/

section Lower

variable {cs seps : List Char}

theorem mem_foldCase (hl : GoStd.LowerLaws) {type : String} {d : Char} (hd : d.toNat < 128)
    (halpha : d.isAlpha = false) : d ∈ (foldCase type cs).toList ↔ d ∈ cs := by
  unfold foldCase toLower
  split
  · rw [String.toList_ofList, String.toList_ofList]
    exact hl.mem_map hd halpha
  · rw [String.toList_ofList]

theorem foldCase_foldCase (hl : GoStd.LowerLaws) (type : String) (cs : List Char) :
    foldCase type (foldCase type cs).toList = foldCase type cs := by
  unfold foldCase
  split
  · rw [String.ofList_toList]
    exact hl.toLower_toLower _
  · rw [String.ofList_toList]

theorem length_foldCase (type : String) (cs : List Char) :
    (foldCase type cs).toList.length = cs.length := by
  unfold foldCase toLower
  split <;> simp

/-- Folding puts no separator into a text. -/
theorem clean_foldCase (hl : GoStd.LowerLaws)
    (hseps : ∀ d ∈ seps, d.toNat < 128 ∧ d.isAlpha = false) (h : ∀ c ∈ cs, c ∉ seps)
    (type : String) : ∀ c ∈ (foldCase type cs).toList, c ∉ seps := by
  intro c hc hmem
  obtain ⟨hd, halpha⟩ := hseps c hmem
  exact h c ((mem_foldCase hl hd halpha).mp hc) hmem

theorem clean_toLower (hl : GoStd.LowerLaws)
    (hseps : ∀ d ∈ seps, d.toNat < 128 ∧ d.isAlpha = false) (h : ∀ c ∈ cs, c ∉ seps) :
    ∀ c ∈ (toLower (String.ofList cs)).toList, c ∉ seps := by
  intro c hc hmem
  obtain ⟨hd, halpha⟩ := hseps c hmem
  rw [toLower, String.toList_ofList, String.toList_ofList, hl.mem_map hd halpha] at hc
  exact h c hc hmem

end Lower

/-- Keys are in lower case and end before a `=`; nothing has a separator
in it. -/
def QualifiersNormal (m : GoMap String) : Prop :=
  ∀ k v, m.lookup k = some v → toLower k = k ∧ (∀ c ∈ k.toList, c ∉ ['=', '&', '#', '\n']) ∧
    ∀ c ∈ v.toList, c ∉ ['&', '#', '\n']

theorem addQualifier_normal (hl : GoStd.LowerLaws) {m : GoMap String} {segment : List Char}
    (hm : QualifiersNormal m) (hclean : '&' ∉ segment ∧ '#' ∉ segment ∧ '\n' ∉ segment) :
    QualifiersNormal (addQualifier m segment) := by
  unfold addQualifier
  rcases cutChar_cases '=' segment with ⟨-, hcut⟩ | ⟨key, value, hkey, rfl, hcut⟩
  · rw [hcut]
    exact hm
  · rw [hcut]
    simp only [List.mem_append, List.mem_cons, not_or] at hclean
    intro k v hv
    by_cases hk : k = toLower (String.ofList key)
    · subst hk
      rw [Finmap.lookup_insert, Option.some.injEq] at hv
      subst hv
      refine ⟨hl.toLower_toLower _, clean_toLower hl (forall_mem_of_all (by decide)) ?_, ?_⟩
      · intro c hc hsep
        simp only [List.mem_cons, List.not_mem_nil, or_false] at hsep
        rcases hsep with rfl | rfl | rfl | rfl
        · exact hkey hc
        · exact hclean.1.1 hc
        · exact hclean.2.1.1 hc
        · exact hclean.2.2.1 hc
      · intro c hc hsep
        rw [String.toList_ofList] at hc
        simp only [List.mem_cons, List.not_mem_nil, or_false] at hsep
        rcases hsep with rfl | rfl | rfl
        · exact hclean.1.2.2 hc
        · exact hclean.2.1.2.2 hc
        · exact hclean.2.2.2.2 hc
    · rw [Finmap.lookup_insert_of_ne _ hk] at hv
      exact hm k v hv

theorem foldl_addQualifier_normal (hl : GoStd.LowerLaws) {segments : List (List Char)}
    (hclean : ∀ segment ∈ segments, '&' ∉ segment ∧ '#' ∉ segment ∧ '\n' ∉ segment)
    {m : GoMap String} (hm : QualifiersNormal m) :
    QualifiersNormal (segments.foldl addQualifier m) := by
  induction segments generalizing m with
  | nil => exact hm
  | cons segment segments ih =>
    refine ih (fun s hs => hclean s (List.mem_cons_of_mem _ hs)) ?_
    exact addQualifier_normal hl hm (hclean segment List.mem_cons_self)

namespace ParsedPurl

/-- A record as the parser makes them. -/
structure Normal (p : ParsedPurl) : Prop where
  type_ne : p.type.toList ≠ []
  type_clean : ∀ c ∈ p.type.toList, c ∉ ['/', '#', '?']
  type_lower : toLower p.type = p.type
  nameSpace_clean : ∀ c ∈ p.nameSpace.toList, c ∉ ['/', '?', '#']
  nameSpace_fold : foldCase p.type p.nameSpace.toList = p.nameSpace
  name_clean : ∀ c ∈ p.name.toList, c ∉ ['@', '?', '#']
  name_fold : foldCase p.type p.name.toList = p.name
  version_clean : ∀ c ∈ p.version.toList, c ∉ ['?', '#']
  qualifiers_normal : QualifiersNormal p.qualifiers
  hash_clean : ∀ c ∈ p.hash.toList, c ∉ ['/', '\n']
  subpath_start : ∀ c ∈ p.subpath.toList.head?, c = '/'
  subpath_end : trimRightChar '/' p.subpath.toList = p.subpath.toList
  subpath_line : '\n' ∉ p.subpath.toList

end ParsedPurl

theorem PurlSyntax.record_nameSpace (d : PurlSyntax) :
    d.record.nameSpace = foldCase d.record.type d.path.nameSpace := rfl

theorem PurlSyntax.record_name (d : PurlSyntax) :
    d.record.name = foldCase d.record.type d.path.name := rfl

theorem PurlSyntax.record_normal (hl : GoStd.LowerLaws) (d : PurlSyntax) : d.record.Normal := by
  have hpath := d.path_wellFormed.clean
  obtain ⟨hsplit, hslash, hstart⟩ := splitHash_spec (d.fragment.getD [])
  have htrim := trimRightChar_start '/' (splitHash (d.fragment.getD [])).2
  have hline : '\n' ∉ d.fragment.getD [] := by
    cases hf : d.fragment with
    | none => simp
    | some f => exact d.fragment_clean f hf
  rw [hsplit, List.mem_append, not_or] at hline
  -- the separators of the whole path, and one more for its part
  have hpart {part : List Char} {sep : Char} (hsub : part ⊆ d.path.text) (hsep : sep ∉ part) :
      ∀ c ∈ part, c ∉ [sep, '?', '#'] := by
    intro c hc hmem
    rcases List.mem_cons.mp hmem with rfl | hmem
    · exact hsep hc
    · exact d.path_clean c (hsub hc) hmem
  refine ⟨?_, ?_, ?_, ?_, ?_, ?_, ?_, ?_, ?_, ?_, ?_, ?_, ?_⟩
  · simpa [record, toLower] using d.type_ne
  · exact clean_toLower hl (forall_mem_of_all (by decide)) d.type_clean
  · exact hl.toLower_toLower _
  · rw [d.record_nameSpace]
    exact clean_foldCase hl (forall_mem_of_all (by decide))
      (hpart d.path.nameSpace_subset hpath.1) _
  · rw [d.record_nameSpace]
    exact foldCase_foldCase hl _ _
  · rw [d.record_name]
    exact clean_foldCase hl (forall_mem_of_all (by decide)) (hpart d.path.name_subset hpath.2) _
  · rw [d.record_name]
    exact foldCase_foldCase hl _ _
  · intro c hc
    rw [record, String.toList_ofList] at hc
    exact d.path_clean c (d.path.version_subset hc)
  · refine foldl_addQualifier_normal hl d.segments_clean ?_
    intro k v hv
    rw [Finmap.lookup_empty] at hv
    cases hv
  · intro c hc hmem
    rw [record, String.toList_ofList] at hc
    simp only [List.mem_cons, List.not_mem_nil, or_false] at hmem
    rcases hmem with rfl | rfl
    · exact hslash hc
    · exact hline.1 hc
  · intro c hc
    rw [record, String.toList_ofList] at hc
    exact hstart c (mem_head?_of_start htrim hc)
  · simp only [record, String.toList_ofList]
    exact trimRightChar_trimRightChar '/' _
  · rw [record, String.toList_ofList]
    exact fun hmem => hline.2 (htrim.subset hmem)

/-! ## Reading back -/

theorem addQualifier_segment {k v : String} (m : GoMap String) (hk : '=' ∉ k.toList)
    (hlower : toLower k = k) : addQualifier m (k.toList ++ '=' :: v.toList) = m.insert k v := by
  unfold addQualifier
  rw [cutChar_append v.toList hk]
  simp only [String.ofList_toList, hlower]

namespace ParsedPurl

/-- The qualifiers are read back from their segments. -/
theorem foldl_segment {m : GoMap String} (hm : QualifiersNormal m) {keys : List String}
    (hkeys : ∀ k ∈ keys, k ∈ m) (acc : GoMap String) (k : String) :
    ((keys.map (segment m)).foldl addQualifier acc).lookup k =
      if k ∈ keys then m.lookup k else acc.lookup k := by
  induction keys generalizing acc with
  | nil => simp
  | cons key keys ih =>
    obtain ⟨v, hv⟩ := Finmap.mem_iff.mp (hkeys key List.mem_cons_self)
    obtain ⟨hlower, hclean, -⟩ := hm key v hv
    have hequals : '=' ∉ key.toList := fun hmem => hclean '=' hmem (by decide)
    rw [List.map_cons, List.foldl_cons, ih fun k hk => hkeys k (List.mem_cons_of_mem _ hk),
      segment, addQualifier_segment acc hequals hlower]
    by_cases hk : k ∈ keys
    · rw [if_pos hk, if_pos (List.mem_cons_of_mem _ hk)]
    · rw [if_neg hk]
      by_cases hkey : k = key
      · rw [hkey, Finmap.lookup_insert, if_pos List.mem_cons_self, hv]
        rfl
      · rw [Finmap.lookup_insert_of_ne _ hkey, if_neg]
        rw [List.mem_cons, not_or]
        exact ⟨hkey, hk⟩

theorem foldl_segments {p : ParsedPurl} (hq : QualifiersNormal p.qualifiers) :
    p.segments.foldl addQualifier ∅ = p.qualifiers := by
  refine Finmap.ext_lookup ?_
  intro k
  rw [segments, foldl_segment hq (fun k hk => GoMap.mem_sortedKeys.mp hk)]
  by_cases hk : k ∈ p.qualifiers
  · rw [if_pos (GoMap.mem_sortedKeys.mpr hk)]
  · rw [if_neg (mt GoMap.mem_sortedKeys.mp hk), Finmap.lookup_empty,
      Finmap.lookup_eq_none.mpr hk]

namespace Normal

variable {p : ParsedPurl}

theorem segments_clean (h : p.Normal) :
    ∀ segment ∈ p.segments, '&' ∉ segment ∧ '#' ∉ segment ∧ '\n' ∉ segment := by
  intro segment hmem
  obtain ⟨k, hk, rfl⟩ := List.mem_map.mp hmem
  obtain ⟨v, hv⟩ := Finmap.mem_iff.mp (GoMap.mem_sortedKeys.mp hk)
  obtain ⟨-, hkey, hvalue⟩ := h.qualifiers_normal k v hv
  -- a separator is in neither part of the segment
  have hsep {c : Char} (hc : c ∈ ['&', '#', '\n']) (hne : c ≠ '=') :
      c ∉ ParsedPurl.segment p.qualifiers k := by
    rw [ParsedPurl.segment, hv, Option.getD_some, List.mem_append, List.mem_cons]
    rintro (hmem | rfl | hmem)
    · exact hkey c hmem (List.mem_cons_of_mem _ hc)
    · exact hne rfl
    · exact hvalue c hmem hc
  exact ⟨hsep (by decide) (by decide), hsep (by decide) (by decide),
    hsep (by decide) (by decide)⟩

theorem pathText_clean (h : p.Normal) : ∀ c ∈ p.pathText, c ∉ ['?', '#'] := by
  have hversion : ∀ c ∈ versionText p.versionPart, c ∉ ['?', '#'] := by
    intro c hc
    unfold versionPart at hc
    split at hc
    · cases hc
    · rcases List.mem_cons.mp hc with rfl | hc
      · decide
      · exact h.version_clean c hc
  intro c hc
  rw [pathText, List.mem_append, List.mem_cons, List.mem_append] at hc
  rcases hc with hc | rfl | hc | hc
  · split at hc
    · cases hc
    · rcases List.mem_cons.mp hc with rfl | hc
      · decide
      · exact fun hmem => h.nameSpace_clean c hc (List.mem_cons_of_mem _ hmem)
  · decide
  · exact fun hmem => h.name_clean c hc (List.mem_cons_of_mem _ hmem)
  · exact hversion c hc

/-- The cut of a printed text: a piece of what follows the path may be
taken for the path. -/
theorem groups (h : p.Normal) {piece tail : List Char} (hpiece : ∀ c ∈ piece, c ∉ ['?', '#'])
    (htail : ∀ c ∈ tail.head?, c ∈ ['?', '#']) :
    Groups p.type.toList (p.pathText ++ piece) tail := by
  refine ⟨h.type_clean, ?_, ?_, htail⟩
  · obtain ⟨body, hbody⟩ := pathText_start p
    exact .inr ⟨body ++ piece, by rw [hbody]; rfl⟩
  · exact List.forall_mem_append.mpr ⟨h.pathText_clean, hpiece⟩

theorem line_not_mem_tail (h : p.Normal) :
    '\n' ∉ queryText p.segments ++ (p.hashText ++ p.subpath.toList) := by
  rw [List.mem_append, List.mem_append]
  rintro (hmem | hmem | hmem)
  · exact not_mem_queryText (by decide) (by decide) (fun s hs => (h.segments_clean s hs).2.2) hmem
  · unfold hashText at hmem
    split at hmem
    · cases hmem
    · rcases List.mem_cons.mp hmem with heq | hmem
      · exact absurd heq (by decide)
      · exact h.hash_clean '\n' hmem (by decide)
  · exact h.subpath_line hmem

/-- The cut of what is printed: there is a path. -/
theorem matchPurl_text (h : p.Normal) :
    ∃ piece tail,
      matchPurl p.text.toList = some (p.type.toList, p.pathText ++ piece, tail) := by
  obtain ⟨piece, tail, htext, hpiece, htail⟩ := scan_cases (fun c => c ∉ ['?', '#'])
    (queryText p.segments ++ (p.hashText ++ p.subpath.toList))
  have hline := h.line_not_mem_tail
  rw [htext, List.mem_append, not_or] at hline
  have hgroups : Groups p.type.toList (p.pathText ++ piece) tail :=
    h.groups (fun c hc => of_decide_eq_true (hpiece c hc))
      (fun c hc => not_not.mp (of_decide_eq_false (htail c hc)))
  have hmatch := hgroups.matchPurl_some h.type_ne hline.2
  rw [List.append_assoc, ← htext, ← toList_text] at hmatch
  exact ⟨piece, tail, hmatch⟩

/-- What is printed is accepted, and keeps its type. -/
theorem text_accepted (h : p.Normal) :
    ∃ d : PurlSyntax, p.text = d.text ∧ d.record.type = p.type ∧
      ∃ body, d.path.text = '/' :: body := by
  obtain ⟨piece, tail, hmatch⟩ := h.matchPurl_text
  obtain ⟨d, hd⟩ := Scintx.Api.exists_syntax hmatch
  rw [hd, d.matchPurl_text] at hmatch
  simp only [Option.some.injEq, Prod.mk.injEq] at hmatch
  obtain ⟨htype, hpath, -⟩ := hmatch
  obtain ⟨body, hbody⟩ := pathText_start p
  refine ⟨d, hd, ?_, body ++ piece, by rw [hpath, hbody]; rfl⟩
  rw [PurlSyntax.record, htype, String.ofList_toList, h.type_lower]

/-- A record that reads back is printed as its parts. -/
theorem exists_syntax (h : p.Normal) (hr : p.ReadsBack) :
    ∃ d : PurlSyntax, d.text = p.text ∧ d.record = p := by
  obtain ⟨htext, hns, hname, hversion⟩ := p.canonicalPath_spec
  have hfragment := p.fragmentText_part hr.subpath
  have hsplit : splitHash (p.fragmentPart.getD []) = (p.hash.toList, p.subpath.toList) := by
    unfold fragmentPart
    split
    · rename_i hempty
      rw [hr.subpath hempty, hempty]
      rfl
    · exact splitHash_append (fun hmem => h.hash_clean '/' hmem (by decide)) h.subpath_start
  have hpath : p.canonicalPath.WellFormed := by
    have hat : '@' ∉ p.name.toList := fun hmem => h.name_clean '@' hmem (by decide)
    unfold canonicalPath
    split
    · rename_i hempty
      refine ⟨hat, ?_⟩
      rw [List.mem_append, mem_versionText (by decide), not_or]
      exact hr.path hempty
    · exact ⟨fun hmem => h.nameSpace_clean '/' hmem (by decide), hat⟩
  have hline := h.line_not_mem_tail
  rw [← hfragment, List.mem_append, not_or] at hline
  refine ⟨⟨p.type.toList, p.canonicalPath, p.segments, p.fragmentPart, h.type_ne, h.type_clean,
    hpath, htext ▸ h.pathText_clean, h.segments_clean, ?_⟩, ?_, ?_⟩
  · intro f hf hmem
    rw [Option.mem_def.mp hf] at hline
    exact hline.2 (List.mem_cons_of_mem _ hmem)
  · refine String.toList_inj.mp ?_
    simp only [PurlSyntax.text, String.toList_ofList, toList_text, htext, hfragment]
  · simp only [PurlSyntax.record, String.ofList_toList, h.type_lower, hns, hname, hversion,
      h.nameSpace_fold, h.name_fold, foldl_segments h.qualifiers_normal, hsplit, h.subpath_end]

/-- A subpath without a hash is lost: what is read as one is behind a `#`
inside it, so it is shorter. -/
theorem subpath_of_read (h : p.Normal) {d : PurlSyntax} (htext : p.text = d.text)
    (hrecord : p = d.record) (hhash : p.hash = "") : p.subpath = "" := by
  by_contra hne
  have hsub : p.subpath.toList = trimRightChar '/' (splitHash (d.fragment.getD [])).2 := by
    rw [hrecord]
    exact String.toList_ofList
  have hlist := congrArg String.toList htext
  rw [toList_text, PurlSyntax.text, String.toList_ofList, hashText, if_pos hhash] at hlist
  cases hf : d.fragment with
  | none =>
    rw [hf] at hsub
    exact hne (String.toList_inj.mp hsub)
  | some f =>
    rw [hf] at hsub hlist
    -- no `#` stands before the fragment, and none before the subpath
    have hp := hash_not_mem_front h.type_clean h.pathText_clean h.segments_clean
    have hd := hash_not_mem_front d.type_clean d.path_clean d.segments_clean
    rcases cutChar_cases '#' p.subpath.toList with ⟨hnone, -⟩ | ⟨a, b, ha, hab, -⟩
    · have hmem : '#' ∈ 'p' :: 'k' :: 'g' :: ':' :: (p.type.toList ++ (p.pathText ++
          (queryText p.segments ++ ([] ++ p.subpath.toList)))) := by
        rw [hlist]
        simp [fragmentText]
      simp only [List.mem_cons, List.mem_append, not_or] at hp
      simp [hp, hnone] at hmem
    · have hcut : ('p' :: 'k' :: 'g' :: ':' :: (p.type.toList ++ (p.pathText ++
          queryText p.segments)) ++ a) ++ '#' :: b =
          ('p' :: 'k' :: 'g' :: ':' :: (d.type ++ (d.path.text ++ queryText d.segments))) ++
            '#' :: f := by
        simpa [hab, fragmentText, List.append_assoc] using hlist
      have hpa := List.mem_append.not.mpr (not_or.mpr ⟨hp, ha⟩)
      obtain ⟨-, rfl⟩ := append_sep_inj hpa hd hcut
      have hlong := (trimRightChar_start '/' (splitHash b).2).length_le
      have hsplit := congrArg List.length (splitHash_spec b).1
      have hshort := congrArg List.length hab
      rw [Option.getD_some] at hsub
      rw [hsub] at hshort
      simp only [List.length_append, List.length_cons] at hsplit hshort
      omega

/-- Without a namespace, the first `/` ends one. -/
theorem path_of_read (h : p.Normal) {d : PurlSyntax} (htext : p.text = d.text)
    (hrecord : p = d.record) (hsubpath : p.hash = "" → p.subpath = "") (hns : p.nameSpace = "") :
    '/' ∉ p.name.toList ∧ '/' ∉ p.version.toList := by
  have htail : ∀ c ∈ (queryText p.segments ++ (p.hashText ++ p.subpath.toList)).head?,
      c ∈ ['?', '#'] := by
    rw [← p.fragmentText_part hsubpath]
    exact head?_tail _ _
  have hgroups := @Normal.groups _ p h [] _ (by simp) htail
  have hmatch := hgroups.matchPurl_some h.type_ne h.line_not_mem_tail
  rw [List.append_nil, ← toList_text, htext, d.matchPurl_text] at hmatch
  have hpath : d.path.text = p.pathText := by
    simp only [Option.some.injEq, Prod.mk.injEq] at hmatch
    exact hmatch.2.1
  rw [pathText, if_pos hns, List.nil_append] at hpath
  rw [← @mem_versionText p '/' (by decide), ← not_or, ← List.mem_append]
  have hwell := d.path_wellFormed
  cases hd : d.path with
  | absent =>
    rw [hd] at hpath
    cases hpath
  | bare name version =>
    rw [hd] at hpath hwell
    rw [← List.cons.inj hpath |>.2]
    exact hwell.2
  | within nameSpace name version =>
    -- the namespace read is empty, and the name is then one `/` too short
    exfalso
    rw [hd] at hpath
    have hbody := congrArg List.length (List.cons.inj hpath).2
    have hnsLength : nameSpace.length = p.nameSpace.toList.length := by
      rw [hrecord, d.record_nameSpace, length_foldCase, hd]
      rfl
    have hnameLength : name.length = p.name.toList.length := by
      rw [hrecord, d.record_name, length_foldCase, hd]
      rfl
    have hversion : p.version.toList = version.getD [] := by
      rw [hrecord, PurlSyntax.record, String.toList_ofList, hd]
      rfl
    have hversionLength := length_versionPart_le hversion
    simp only [List.length_append, List.length_cons] at hbody
    omega

theorem read_iff (h : p.Normal) : parsePurl p.text = .ok p ↔ p.ReadsBack := by
  constructor
  · intro hread
    obtain ⟨d, htext, hrecord⟩ := parsePurl_ok hread
    have hsubpath := h.subpath_of_read htext hrecord
    exact ⟨h.path_of_read htext hrecord hsubpath, hsubpath⟩
  · intro hr
    obtain ⟨d, htext, hrecord⟩ := h.exists_syntax hr
    rw [← htext, d.parsePurl_text, hrecord]

end Normal

end ParsedPurl

theorem parsePurl_normal (hl : GoStd.LowerLaws) {s : String} {p : ParsedPurl}
    (h : parsePurl s = .ok p) : p.Normal := by
  obtain ⟨d, -, rfl⟩ := parsePurl_ok h
  exact d.record_normal hl

/-- A canonical form is accepted, has the type of what it was made from,
and has a path. -/
theorem canonicalPurl_accepted (hl : GoStd.LowerLaws) {s c : String}
    (h : canonicalPurl s = .ok c) :
    ∃ p, ∃ d : PurlSyntax, parsePurl s = .ok p ∧ c = d.text ∧ d.record.type = p.type ∧
      ∃ body, d.path.text = '/' :: body := by
  unfold canonicalPurl at h
  split at h
  · cases h
  · rename_i p hp
    cases h
    obtain ⟨d, hd⟩ := (parsePurl_normal hl hp).text_accepted
    exact ⟨p, d, hp, hd⟩

/-- A canonical form has the type of what it was made from. -/
theorem purlType_canonicalPurl (hl : GoStd.LowerLaws) {s c : String}
    (h : canonicalPurl s = .ok c) : purlType c = purlType s := by
  obtain ⟨p, d, hp, rfl, htype, -⟩ := canonicalPurl_accepted hl h
  simp only [purlType, d.parsePurl_text, hp, htype]

/-- **Printing and reading back.** The canonical form of an accepted PURL
is accepted. It is read as the record it was printed from exactly if no
`/` stands in a name or version without a namespace and no subpath
without a hash; then it is its own canonical form, and no other such
record has it. -/
theorem canonicalPurl_round_trip (hl : GoStd.LowerLaws) {s : String} {p : ParsedPurl}
    (h : parsePurl s = .ok p) :
    ∃ c, canonicalPurl s = .ok c ∧ (∃ q, parsePurl c = .ok q) ∧
      (parsePurl c = .ok p ↔ p.ReadsBack) ∧
      (p.ReadsBack → canonicalPurl c = .ok c ∧
        ∀ s' p', parsePurl s' = .ok p' → p'.ReadsBack → canonicalPurl s' = .ok c → p' = p) := by
  have hcanonical {s : String} {p : ParsedPurl} (h : parsePurl s = .ok p) :
      canonicalPurl s = .ok p.text := by
    rw [canonicalPurl, h]
  have hnormal := parsePurl_normal hl h
  obtain ⟨d, hd, -⟩ := hnormal.text_accepted
  refine ⟨p.text, hcanonical h, ⟨d.record, hd ▸ d.parsePurl_text⟩, hnormal.read_iff, ?_⟩
  intro hr
  have hread := hnormal.read_iff.mpr hr
  refine ⟨hcanonical hread, ?_⟩
  intro s' p' h' hr' hc'
  have hread' := (parsePurl_normal hl h').read_iff.mpr hr'
  rw [hcanonical h', Except.ok.injEq] at hc'
  rw [hc', hread, Except.ok.injEq] at hread'
  exact hread'.symm

/-! ## Spellings of one PURL -/

/-- One change to the segments that parsing does not see: the letter case
of a key, the order of two neighbours with different keys, a segment that
is empty or has no `=`. -/
inductive Respelled : List (List Char) → List (List Char) → Prop
  | keyCase {before after : List (List Char)} {k k' v : List Char} (hk : '=' ∉ k) (hk' : '=' ∉ k')
      (h : k.map GoStd.lower = k'.map GoStd.lower) :
      Respelled (before ++ (k ++ '=' :: v) :: after) (before ++ (k' ++ '=' :: v) :: after)
  | swap {before after : List (List Char)} {k k' v v' : List Char} (hk : '=' ∉ k) (hk' : '=' ∉ k')
      (h : k.map GoStd.lower ≠ k'.map GoStd.lower) :
      Respelled (before ++ (k ++ '=' :: v) :: (k' ++ '=' :: v') :: after)
        (before ++ (k' ++ '=' :: v') :: (k ++ '=' :: v) :: after)
  | skip {before after : List (List Char)} {segment : List Char} (h : '=' ∉ segment) :
      Respelled (before ++ segment :: after) (before ++ after)

theorem addQualifier_append (m : GoMap String) {k : List Char} (v : List Char) (hk : '=' ∉ k) :
    addQualifier m (k ++ '=' :: v) =
      m.insert (String.ofList (k.map GoStd.lower)) (String.ofList v) := by
  unfold addQualifier
  rw [cutChar_append v hk]
  simp only [toLower, String.toList_ofList]

theorem Respelled.foldl_eq {l l' : List (List Char)} (h : Respelled l l') (m : GoMap String) :
    l.foldl addQualifier m = l'.foldl addQualifier m := by
  cases h with
  | keyCase hk hk' h =>
    simp only [List.foldl_append, List.foldl_cons, addQualifier_append _ _ hk,
      addQualifier_append _ _ hk', h]
  | swap hk hk' h =>
    simp only [List.foldl_append, List.foldl_cons, addQualifier_append _ _ hk,
      addQualifier_append _ _ hk']
    rw [Finmap.insert_insert_of_ne]
    exact fun heq => h (String.ofList_injective heq)
  | skip h =>
    simp only [List.foldl_append, List.foldl_cons, addQualifier, cutChar_of_not_mem h]

theorem foldl_addQualifier_of_respelled {l l' : List (List Char)}
    (h : Relation.EqvGen Respelled l l') (m : GoMap String) :
    l.foldl addQualifier m = l'.foldl addQualifier m := by
  induction h with
  | rel l l' h => exact h.foldl_eq m
  | refl l => rfl
  | symm l l' _ ih => exact ih.symm
  | trans l l' l'' _ _ ih ih' => exact ih.trans ih'

/-- Equal, but for the letter case where the type makes nothing of it. -/
def SameLetters (type : String) (a b : List Char) : Prop :=
  if type ∈ namespaceLowerTypes then a.map GoStd.lower = b.map GoStd.lower else a = b

instance (type : String) (a b : List Char) : Decidable (SameLetters type a b) :=
  inferInstanceAs (Decidable (ite _ _ _))

theorem SameLetters.foldCase_eq {type : String} {a b : List Char} (h : SameLetters type a b) :
    foldCase type a = foldCase type b := by
  unfold SameLetters at h
  unfold foldCase
  split
  · rename_i htype
    rw [if_pos htype] at h
    simp only [toLower, String.toList_ofList, h]
  · rename_i htype
    rw [if_neg htype] at h
    rw [h]

inductive PathAlike (type : String) : PurlPath → PurlPath → Prop
  | absent : PathAlike type .absent .absent
  | bare {name name' : List Char} (version : Option (List Char)) (h : SameLetters type name name') :
      PathAlike type (.bare name version) (.bare name' version)
  | within {nameSpace nameSpace' name name' : List Char} (version : Option (List Char))
      (hns : SameLetters type nameSpace nameSpace') (h : SameLetters type name name') :
      PathAlike type (.within nameSpace name version) (.within nameSpace' name' version)

theorem PathAlike.fold_eq {type : String} {p p' : PurlPath} (h : PathAlike type p p') :
    foldCase type p.nameSpace = foldCase type p'.nameSpace ∧
      foldCase type p.name = foldCase type p'.name ∧ p.version = p'.version := by
  cases h with
  | absent => exact ⟨rfl, rfl, rfl⟩
  | bare version hname => exact ⟨rfl, hname.foldCase_eq, rfl⟩
  | within version hns hname => exact ⟨hns.foldCase_eq, hname.foldCase_eq, rfl⟩

/-- Two texts that differ in spelling only: the letter case of the type
and of keys, the order of qualifiers with different keys, segments that
are passed over, and, for the types that fold it, the letter case of the
namespace and the name. -/
structure PurlSyntax.Alike (d d' : PurlSyntax) : Prop where
  type : d.type.map GoStd.lower = d'.type.map GoStd.lower
  path : PathAlike (String.ofList (d.type.map GoStd.lower)) d.path d'.path
  segments : Relation.EqvGen Respelled d.segments d'.segments
  fragment : d.fragment = d'.fragment

theorem PurlSyntax.Alike.record_eq {d d' : PurlSyntax} (h : d.Alike d') :
    d.record = d'.record := by
  have hlower (cs : List Char) :
      toLower (String.ofList cs) = String.ofList (cs.map GoStd.lower) := by
    rw [toLower, String.toList_ofList]
  have hpath := h.path.fold_eq
  rw [h.type] at hpath
  simp only [record, hlower, hpath.1, hpath.2.1, hpath.2.2, h.type, h.fragment,
    foldl_addQualifier_of_respelled h.segments]

end Given

deriving instance DecidableEq for ParsedPurl

/-- A PURL with every part, and segments that are passed over. -/
theorem canonicalPurl_round_trip_pypi :
    let _ := GoStd.plain
    let c := "pkg:pypi/ns/name@1?a=1&b=2#h/s"
    GoStd.LowerLaws ∧ canonicalPurl "pkg:PyPI/NS/Name@1?B=2&&x&A=1#h/s/" = .ok c ∧
      parsePurl c = parsePurl "pkg:PyPI/NS/Name@1?B=2&&x&A=1#h/s/" ∧ canonicalPurl c = .ok c := by
  intro _ c
  let p : ParsedPurl :=
    { type := "pypi", nameSpace := "ns", name := "name", version := "1"
      qualifiers := (Finmap.singleton "b" "2").insert "a" "1", hash := "h", subpath := "/s" }
  have hp : parsePurl "pkg:PyPI/NS/Name@1?B=2&&x&A=1#h/s/" = .ok p := by decide +kernel
  have hr : p.ReadsBack := ⟨by decide +kernel, by decide +kernel⟩
  obtain ⟨c', hc', -, hread, hfix⟩ := canonicalPurl_round_trip lowerLaws_plain hp
  have hc : canonicalPurl "pkg:PyPI/NS/Name@1?B=2&&x&A=1#h/s/" = .ok c := by decide +kernel
  obtain rfl : c = c' := Except.ok.inj (hc.symm.trans hc')
  exact ⟨lowerLaws_plain, hc, (hread.mpr hr).trans hp.symm, (hfix hr).1⟩

/-- A name with a `/` in it gets a namespace and becomes another package;
a subpath without a hash becomes a name; the canonical form of a name that
begins with `/` has a canonical form of its own. -/
theorem bare_slash_becomes_namespace :
    let _ := GoStd.plain
    (canonicalPurl "pkg:t//a/b" = .ok "pkg:t/a/b" ∧ canonicalPurl "pkg:t/a/b" = .ok "pkg:t/a/b" ∧
      parsePurl "pkg:t//a/b" = .ok { type := "t", name := "a/b" } ∧
      parsePurl "pkg:t/a/b" = .ok { type := "t", nameSpace := "a", name := "b" }) ∧
    (canonicalPurl "pkg:t/n#/sub" = .ok "pkg:t/n/sub" ∧
      parsePurl "pkg:t/n#/sub" = .ok { type := "t", name := "n", subpath := "/sub" } ∧
      parsePurl "pkg:t/n/sub" = .ok { type := "t", nameSpace := "n", name := "sub" }) ∧
    (canonicalPurl "pkg:t///b" = .ok "pkg:t//b" ∧ canonicalPurl "pkg:t//b" = .ok "pkg:t/b") := by
  intro _
  refine ⟨⟨?_, ?_, ?_, ?_⟩, ⟨?_, ?_, ?_⟩, ?_, ?_⟩ <;> decide +kernel

end Scintx.Api
