/-
Scintx.Orchestrator.CacheKey — what a cache key says about the artifact
(`internal/scintx/cache_key.go`).

A key is the hash of the provider, the capability and a FINGERPRINT of
the artifact, put together with `|`. The fingerprint is a list of parts,
`purl=…`, one `digest.name=value` a digest and `content=…`, put together
with `;`. Nothing is escaped, and digests, PURLs and URIs are whatever
the client sent: a digest value that has a `;digest.` in it can play the
part of the next digest (`digest_value_forges_digest`). Texts that can be
cut in one way only can be read back (`cache_key_binds`); the content
stands at the end, so its URI may contain anything. The other way round,
PURLs that differ in spelling only have one canonical form and their
artifacts one key (`spelling_keeps_key`).
-/
import Scintx.Api.PurlTheorems
import Scintx.Orchestrator.World

namespace Scintx.Orchestrator

open Scintx.Lib Scintx.Api

/-! ## Digests and content -/

def digestPart (name value : String) : String := "digest." ++ name ++ "=" ++ value

def digestParts (digests : GoMap String) : List String :=
  (GoMap.sortedKeys digests).map fun k => digestPart k ((digests.lookup k).getD "")

/-- The URI of the content, empty if there is none. -/
def contentURI (a : Artifact) : String :=
  match a.contentRef with
  | none => ""
  | some ref => ref.uri

def contentParts (a : Artifact) : List String :=
  if contentURI a = "" then [] else ["content=" ++ contentURI a]

theorem mem_digestParts {digests : GoMap String} {part : String} :
    part ∈ digestParts digests ↔ ∃ k v, digests.lookup k = some v ∧ part = digestPart k v := by
  simp only [digestParts, List.mem_map, GoMap.mem_sortedKeys]
  constructor
  · rintro ⟨k, hk, rfl⟩
    obtain ⟨v, hv⟩ := Finmap.mem_iff.mp hk
    exact ⟨k, v, hv, by rw [hv]; rfl⟩
  · rintro ⟨k, v, hv, rfl⟩
    exact ⟨k, Finmap.mem_of_lookup_eq_some hv, by rw [hv]; rfl⟩

/-- The first `=` ends the name. -/
theorem digestPart_inj {k k' v v' : String} (hk : '=' ∉ k.toList) (hk' : '=' ∉ k'.toList)
    (h : digestPart k v = digestPart k' v') : k = k' ∧ v = v' := by
  have hsplit : "digest." ++ k = "digest." ++ k' ∧ v = v' := by
    refine append_text_inj toList_equals ?_ ?_ h
    · simpa using hk
    · simpa using hk'
  have hname : k.toList = k'.toList := by simpa using congrArg String.toList hsplit.1
  exact ⟨String.toList_inj.mp hname, hsplit.2⟩

/-- Digests can be read back from their parts. -/
theorem digestParts_injective {m m' : GoMap String}
    (hm : ∀ k v, m.lookup k = some v → '=' ∉ k.toList)
    (hm' : ∀ k v, m'.lookup k = some v → '=' ∉ k.toList)
    (h : digestParts m = digestParts m') : m = m' := by
  have hread {n n' : GoMap String} (hn : ∀ k v, n.lookup k = some v → '=' ∉ k.toList)
      (hn' : ∀ k v, n'.lookup k = some v → '=' ∉ k.toList) (heq : digestParts n = digestParts n')
      {k v : String} (hk : n.lookup k = some v) : n'.lookup k = some v := by
    have hpart : digestPart k v ∈ digestParts n' := by
      rw [← heq]
      exact mem_digestParts.mpr ⟨k, v, hk, rfl⟩
    obtain ⟨k', v', hk', hpart⟩ := mem_digestParts.mp hpart
    obtain ⟨rfl, rfl⟩ := digestPart_inj (hn k v hk) (hn' k' v' hk') hpart
    exact hk'
  refine Finmap.ext_lookup ?_
  intro k
  refine Option.ext ?_
  intro v
  exact ⟨hread hm hm' h, hread hm' hm h.symm⟩

theorem head?_digestPart (k v : String) : (digestPart k v).toList.head? = some 'd' := by
  rw [digestPart, String.toList_append, String.toList_append, String.toList_append]
  rfl

theorem contentParts_cases (a : Artifact) :
    contentParts a = [] ∨ ∃ e, contentParts a = [e] ∧ e.toList.head? = some 'c' := by
  unfold contentParts
  split
  · exact .inl rfl
  · refine .inr ⟨_, rfl, ?_⟩
    rw [String.toList_append]
    rfl

theorem contentURI_of_parts {a a' : Artifact} (h : contentParts a = contentParts a') :
    contentURI a = contentURI a' := by
  unfold contentParts at h
  split at h <;> split at h
  · rename_i ha ha'
    rw [ha, ha']
  · cases h
  · cases h
  · have hlist := congrArg String.toList (List.singleton_inj.mp h)
    simp only [String.toList_append, List.append_cancel_left_eq] at hlist
    exact String.toList_inj.mp hlist

theorem head?_purlPart (p : String) : ("purl=" ++ p).toList.head? = some 'p' := by
  rw [String.toList_append]
  rfl

/-- No list of parts makes the text `empty`. -/
theorem join_parts_ne_empty {parts : List String}
    (hparts : ∀ x ∈ parts, x.toList.head? ≠ some 'e') (hne : parts ≠ []) :
    join parts ";" ≠ "empty" := by
  intro h
  cases parts with
  | nil => exact hne rfl
  | cons x xs =>
    refine head?_join_cons toList_semicolon (by decide) (hparts x (by simp)) xs ?_
    rw [h]
    rfl

/-- How a part begins that is not the first. -/
def partMarks : List (List Char) := ["digest.".toList, "content=".toList]

theorem mark_of_digest {x : String} {m : GoMap String} (hx : x ∈ digestParts m) :
    ∃ mark ∈ partMarks, mark <+: x.toList := by
  obtain ⟨k, v, -, rfl⟩ := mem_digestParts.mp hx
  refine ⟨"digest.".toList, List.mem_cons_self, ?_⟩
  rw [digestPart, String.append_assoc, String.append_assoc, String.toList_append]
  exact List.prefix_append ..

theorem mark_of_content {a : Artifact} {x : String} (hx : x ∈ contentParts a) :
    ∃ mark ∈ partMarks, mark <+: x.toList := by
  unfold contentParts at hx
  split at hx
  · cases hx
  · rw [List.mem_singleton.mp hx, String.toList_append]
    exact ⟨"content=".toList, by decide, List.prefix_append ..⟩

theorem digestParts_singleton (k v : String) :
    digestParts (Finmap.singleton k v) = [digestPart k v] := by
  have hkeys : GoMap.sortedKeys (Finmap.singleton k v : GoMap String) = [k] := by
    refine GoMap.sortedKeys_eq (List.pairwise_singleton _ k).sortedLE (List.nodup_singleton k) ?_
    intro x
    rw [List.mem_singleton, Finmap.mem_singleton]
  rw [digestParts, hkeys, List.map_singleton, Finmap.lookup_singleton_eq, Option.getD_some]

/-! ## One digest in the value of another -/

/-- The digests with the second one in the value of the first. -/
def swallow (m : GoMap String) (k k' v v' : String) : GoMap String :=
  (m.erase k').insert k (v ++ ";" ++ digestPart k' v')

section Swallow

variable {m : GoMap String} {k k' v v' : String} {rest : List String}

theorem lookup_swallow_of_ne {x : String} (hx : x ≠ k) (hx' : x ≠ k') :
    (swallow m k k' v v').lookup x = m.lookup x := by
  rw [swallow, Finmap.lookup_insert_of_ne _ hx, Finmap.lookup_erase_ne hx']

theorem sortedKeys_swallow (hkeys : m.sortedKeys = k :: k' :: rest) :
    (swallow m k k' v v').sortedKeys = k :: rest := by
  obtain ⟨hsorted, hnodup⟩ := m.sortedKeys_spec
  rw [hkeys] at hsorted hnodup
  have hsub : (k :: rest).Sublist (k :: k' :: rest) := (List.sublist_cons_self k' rest).cons_cons k
  refine GoMap.sortedKeys_eq (hsorted.pairwise.sublist hsub).sortedLE (hnodup.sublist hsub) ?_
  intro x
  have hmem : x ∈ k :: k' :: rest ↔ x ∈ m := by rw [← hkeys, GoMap.mem_sortedKeys]
  rw [swallow, Finmap.mem_insert, Finmap.mem_erase, ← hmem]
  simp only [List.nodup_cons, List.mem_cons, not_or] at hnodup ⊢
  constructor
  · rintro (rfl | hx)
    · exact .inl rfl
    · refine .inr ⟨?_, .inr (.inr hx)⟩
      rintro rfl
      exact hnodup.2.1 hx
  · rintro (rfl | ⟨hne, rfl | rfl | hx⟩)
    · exact .inl rfl
    · exact .inl rfl
    · exact absurd rfl hne
    · exact .inr hx

/-- The two parts have become one. -/
theorem digestParts_swallow (hkeys : m.sortedKeys = k :: k' :: rest) (hv : m.lookup k = some v)
    (hv' : m.lookup k' = some v') : ∃ parts,
      digestParts m = digestPart k v :: digestPart k' v' :: parts ∧
      digestParts (swallow m k k' v v') = (digestPart k v ++ ";" ++ digestPart k' v') :: parts := by
  obtain ⟨-, hnodup⟩ := m.sortedKeys_spec
  rw [hkeys] at hnodup
  refine ⟨rest.map fun x => digestPart x ((m.lookup x).getD ""), ?_, ?_⟩
  · simp [digestParts, hkeys, hv, hv']
  · rw [digestParts, sortedKeys_swallow hkeys, List.map_cons, swallow, Finmap.lookup_insert]
    refine congrArg₂ List.cons ?_ (List.map_congr_left ?_)
    · simp [digestPart, String.append_assoc]
    · intro x hx
      have hne : x ≠ k := by
        rintro rfl
        exact (List.nodup_cons.mp hnodup).1 (List.mem_cons_of_mem _ hx)
      have hne' : x ≠ k' := by
        rintro rfl
        exact (List.nodup_cons.mp (List.nodup_cons.mp hnodup).2).1 hx
      rw [← swallow, lookup_swallow_of_ne hne hne']

end Swallow

section Given

variable [GoStd]

/-! ## Fingerprints -/

/-- The canonical PURL of an artifact; a PURL that does not parse stands
for itself. -/
def fingerprintPurl (a : Artifact) : Option String :=
  match a.purl with
  | none => none
  | some p =>
    if p = "" then none
    else
      match canonicalPurl p with
      | .ok cp => some cp
      | .error _ => some p

/-- The parts before the content. -/
def leadingParts (a : Artifact) : List String :=
  (fingerprintPurl a).toList.map ("purl=" ++ ·) ++ digestParts a.digests

theorem artifactFingerprint_eq (a : Artifact) :
    artifactFingerprint a =
      if leadingParts a ++ contentParts a = [] then "empty"
      else join (leadingParts a ++ contentParts a) ";" := by
  unfold artifactFingerprint leadingParts contentParts contentURI fingerprintPurl
  cases a.purl with
  | none => cases a.contentRef <;> rfl
  | some p =>
    by_cases hempty : p = ""
    · simp only [hempty, if_true]
      cases a.contentRef <;> rfl
    · simp only [hempty, if_false]
      cases canonicalPurl p <;> cases a.contentRef <;> rfl

/-- A part before the content begins with a letter of its own. -/
theorem head?_leadingParts {a : Artifact} {x : String} (h : x ∈ leadingParts a) :
    x.toList.head? = some 'p' ∨ x.toList.head? = some 'd' := by
  rcases List.mem_append.mp h with hpurl | hdigest
  · obtain ⟨p, -, rfl⟩ := List.mem_map.mp hpurl
    exact .inl (head?_purlPart p)
  · obtain ⟨k, v, -, rfl⟩ := mem_digestParts.mp hdigest
    exact .inr (head?_digestPart k v)

/-- The PURL and the digests of equal parts. -/
theorem leadingParts_injective {a a' : Artifact}
    (hm : ∀ k v, a.digests.lookup k = some v → '=' ∉ k.toList)
    (hm' : ∀ k v, a'.digests.lookup k = some v → '=' ∉ k.toList)
    (h : leadingParts a = leadingParts a') :
    fingerprintPurl a = fingerprintPurl a' ∧ a.digests = a'.digests := by
  -- a digest part is not a PURL part
  have hkind {p : String} {ds : List String} {m : GoMap String}
      (heq : ("purl=" ++ p) :: ds = digestParts m) : False := by
    have hmem : "purl=" ++ p ∈ digestParts m := by
      rw [← heq]
      exact List.mem_cons_self
    obtain ⟨k, v, -, hpart⟩ := mem_digestParts.mp hmem
    have hhead := head?_purlPart p
    rw [hpart, head?_digestPart] at hhead
    cases hhead
  unfold leadingParts at h
  cases hp : fingerprintPurl a with
  | none =>
    cases hp' : fingerprintPurl a' with
    | none =>
      rw [hp, hp'] at h
      exact ⟨rfl, digestParts_injective hm hm' h⟩
    | some p' =>
      rw [hp, hp'] at h
      exact (hkind h.symm).elim
  | some p =>
    cases hp' : fingerprintPurl a' with
    | none =>
      rw [hp, hp'] at h
      exact (hkind h).elim
    | some p' =>
      rw [hp, hp'] at h
      simp only [Option.toList_some, List.map_cons, List.map_nil, List.cons_append,
        List.nil_append, List.cons.injEq] at h
      have hlist := congrArg String.toList h.1
      simp only [String.toList_append, List.append_cancel_left_eq] at hlist
      exact ⟨by rw [String.toList_inj.mp hlist], digestParts_injective hm hm' h.2⟩

/-! ## Reading a key back -/

/-- The texts of a key can be cut in one way: no provider or capability id
has a `|`, no digest name a `=`, and neither the PURL nor a digest has a
`;` that looks like the end of its part, with `digest.` or `content=`
behind it. -/
structure Separable (providerID capabilityID : String) (a : Artifact) : Prop where
  provider : '|' ∉ providerID.toList
  capability : '|' ∉ capabilityID.toList
  names : ∀ k v, a.digests.lookup k = some v → '=' ∉ k.toList
  parts : ∀ x ∈ leadingParts a, Unmarked ';' partMarks x.toList

section Separable

variable {providerID capabilityID providerID' capabilityID' : String} {a a' : Artifact}

/-- The parts before the content: none has a mark in it, and none looks
like the content. -/
theorem Separable.leading (h : Separable providerID capabilityID a) :
    ∀ x ∈ leadingParts a, Unmarked ';' partMarks x.toList ∧ x.toList.head? ≠ some 'c' := by
  intro x hx
  refine ⟨h.parts x hx, ?_⟩
  rcases head?_leadingParts hx with hhead | hhead
  · rw [hhead]
    decide
  · rw [hhead]
    decide

/-- Every part but the first begins with a mark. -/
theorem mark_of_tail {x : String} (hx : x ∈ (leadingParts a ++ contentParts a).tail) :
    ∃ mark ∈ partMarks, mark <+: x.toList := by
  have hrest : x ∈ digestParts a.digests ++ contentParts a := by
    unfold leadingParts at hx
    cases hp : fingerprintPurl a with
    | none =>
      rw [hp] at hx
      exact List.mem_of_mem_tail hx
    | some p =>
      rw [hp] at hx
      exact hx
  rcases List.mem_append.mp hrest with hdigest | hcontent
  · exact mark_of_digest hdigest
  · exact mark_of_content hcontent

theorem head?_parts {x : String} (hx : x ∈ leadingParts a ++ contentParts a) :
    x.toList.head? ≠ some 'e' := by
  rcases List.mem_append.mp hx with hlead | hcontent
  · rcases head?_leadingParts hlead with hhead | hhead <;> rw [hhead] <;> decide
  · rcases contentParts_cases a with hnone | ⟨e, he, hhead⟩
    · rw [hnone] at hcontent
      cases hcontent
    · rw [he, List.mem_singleton] at hcontent
      rw [hcontent, hhead]
      decide

/-- **A fingerprint can be read back.** -/
theorem Separable.of_fingerprint (h : Separable providerID capabilityID a)
    (h' : Separable providerID' capabilityID' a')
    (heq : artifactFingerprint a = artifactFingerprint a') :
    fingerprintPurl a = fingerprintPurl a' ∧ a.digests = a'.digests ∧
      contentURI a = contentURI a' := by
  have hparts : leadingParts a = leadingParts a' ∧ contentParts a = contentParts a' := by
    rw [artifactFingerprint_eq, artifactFingerprint_eq] at heq
    by_cases hnil : leadingParts a ++ contentParts a = [] <;>
      by_cases hnil' : leadingParts a' ++ contentParts a' = []
    · rw [List.append_eq_nil_iff] at hnil hnil'
      exact ⟨hnil.1.trans hnil'.1.symm, hnil.2.trans hnil'.2.symm⟩
    · rw [if_pos hnil, if_neg hnil'] at heq
      exact absurd heq.symm (join_parts_ne_empty (fun x hx => head?_parts hx) hnil')
    · rw [if_neg hnil, if_pos hnil'] at heq
      exact absurd heq (join_parts_ne_empty (fun x hx => head?_parts hx) hnil)
    · rw [if_neg hnil, if_neg hnil'] at heq
      exact join_marked_injective toList_semicolon (by decide) (by decide) h.leading h'.leading
        (fun x hx => mark_of_tail hx) (fun x hx => mark_of_tail hx)
        (contentParts_cases a) (contentParts_cases a') hnil hnil' heq
  obtain ⟨hpurl, hdigests⟩ := leadingParts_injective h.names h'.names hparts.1
  exact ⟨hpurl, hdigests, contentURI_of_parts hparts.2⟩

end Separable

theorem resultCacheKey_eq (providerID capabilityID : String) (a : Artifact) :
    resultCacheKey providerID capabilityID a = "scintx:result:v1:" ++
      hashStr (providerID ++ "|" ++ (capabilityID ++ "|" ++ artifactFingerprint a)) := by
  have hraw : join [providerID, capabilityID, artifactFingerprint a] "|" =
      providerID ++ "|" ++ (capabilityID ++ "|" ++ artifactFingerprint a) := by
    rw [join_cons (by simp), join_cons (by simp)]
    rfl
  exact congrArg (fun raw => "scintx:result:v1:" ++ hashStr raw) hraw

theorem binds_of_separable (hsha : Function.Injective GoStd.sha256)
    {providerID capabilityID providerID' capabilityID' : String} {a a' : Artifact}
    (h : Separable providerID capabilityID a) (h' : Separable providerID' capabilityID' a')
    (heq : resultCacheKey providerID capabilityID a =
      resultCacheKey providerID' capabilityID' a') :
    providerID = providerID' ∧ capabilityID = capabilityID' ∧
      fingerprintPurl a = fingerprintPurl a' ∧ a.digests = a'.digests ∧
      contentURI a = contentURI a' := by
  rw [resultCacheKey_eq, resultCacheKey_eq] at heq
  have hhash := congrArg String.toList heq
  simp only [String.toList_append, List.append_cancel_left_eq] at hhash
  have hraw := hashStr_injective hsha (String.toList_inj.mp hhash)
  obtain ⟨hprovider, hrest⟩ := append_text_inj toList_bar h.provider h'.provider hraw
  obtain ⟨hcapability, hprint⟩ := append_text_inj toList_bar h.capability h'.capability hrest
  exact ⟨hprovider, hcapability, h.of_fingerprint h' hprint⟩

/-! ## Keys that do not bind -/

/-- A `|` in an id can be taken for the one behind it. -/
theorem bar_moves {providerID capabilityID : String} (a : Artifact)
    (h : '|' ∈ providerID.toList ∨ '|' ∈ capabilityID.toList) :
    ∃ providerID' capabilityID', providerID' ≠ providerID ∧
      resultCacheKey providerID' capabilityID' a = resultCacheKey providerID capabilityID a := by
  rcases h with hbar | hbar
  · obtain ⟨p, p', rfl⟩ := exists_halves toList_bar hbar
    refine ⟨p, p' ++ "|" ++ capabilityID, (append_ne_left p p' "|" (by decide)).symm, ?_⟩
    simp only [resultCacheKey_eq, String.append_assoc]
  · obtain ⟨c, c', rfl⟩ := exists_halves toList_bar hbar
    refine ⟨providerID ++ "|" ++ c, c', append_ne_left providerID c "|" (by decide), ?_⟩
    simp only [resultCacheKey_eq, String.append_assoc]

/-- A `=` in the name of a digest can be taken for the end of the name. -/
theorem equals_moves (providerID capabilityID : String) (a : Artifact) {k : String} (v : String)
    (h : '=' ∈ k.toList) :
    ∃ k' v', k' ≠ k ∧
      resultCacheKey providerID capabilityID { a with digests := Finmap.singleton k' v' } =
        resultCacheKey providerID capabilityID { a with digests := Finmap.singleton k v } := by
  obtain ⟨k₁, k₂, rfl⟩ := exists_halves toList_equals h
  refine ⟨k₁, k₂ ++ "=" ++ v, (append_ne_left k₁ k₂ "=" (by decide)).symm, ?_⟩
  have hpart : digestPart k₁ (k₂ ++ "=" ++ v) = digestPart (k₁ ++ "=" ++ k₂) v := by
    simp only [digestPart, String.append_assoc]
  rw [resultCacheKey_eq, resultCacheKey_eq, artifactFingerprint_eq, artifactFingerprint_eq,
    leadingParts, leadingParts, digestParts_singleton, digestParts_singleton, hpart]
  rfl

/-- The second digest of an artifact can be taken for the end of the value
of the first. -/
theorem digest_moves (providerID capabilityID : String) {a : Artifact} {k k' : String}
    (hk : k ∈ a.digests) (hk' : k' ∈ a.digests) (hne : k ≠ k') :
    ∃ digests, digests ≠ a.digests ∧
      resultCacheKey providerID capabilityID { a with digests := digests } =
        resultCacheKey providerID capabilityID a := by
  -- the first two names
  obtain ⟨x, x', rest, hkeys⟩ : ∃ x x' rest, GoMap.sortedKeys a.digests = x :: x' :: rest := by
    rw [← GoMap.mem_sortedKeys] at hk hk'
    cases hlist : GoMap.sortedKeys a.digests with
    | nil =>
      rw [hlist] at hk
      cases hk
    | cons y ys =>
      cases ys with
      | nil =>
        rw [hlist, List.mem_singleton] at hk hk'
        exact absurd (hk.trans hk'.symm) hne
      | cons y' rest => exact ⟨y, y', rest, rfl⟩
  have hmem {y : String} (hy : y ∈ x :: x' :: rest) : ∃ v, a.digests.lookup y = some v := by
    rw [← hkeys, GoMap.mem_sortedKeys] at hy
    exact Finmap.mem_iff.mp hy
  obtain ⟨v, hv⟩ := hmem List.mem_cons_self
  obtain ⟨v', hv'⟩ := hmem (List.mem_cons_of_mem _ List.mem_cons_self)
  obtain ⟨parts, hparts, hswallow⟩ := digestParts_swallow hkeys hv hv'
  refine ⟨swallow a.digests x x' v v', ?_, ?_⟩
  · intro heq
    have hlookup : (swallow a.digests x x' v v').lookup x = some v := by rw [heq, hv]
    rw [swallow, Finmap.lookup_insert, Option.some.injEq] at hlookup
    exact append_ne_left v _ ";" (by decide) hlookup
  · have hprint : artifactFingerprint { a with digests := swallow a.digests x x' v v' } =
        artifactFingerprint a := by
      have hmerge := join_merge ((fingerprintPurl a).toList.map ("purl=" ++ ·)) (digestPart x v)
        (digestPart x' v') (parts ++ contentParts a) ";"
      rw [artifactFingerprint_eq, artifactFingerprint_eq, leadingParts, leadingParts, hparts,
        hswallow, if_neg (by simp), if_neg (by simp), List.append_assoc, List.append_assoc]
      exact hmerge
    rw [resultCacheKey_eq, resultCacheKey_eq, hprint]

/-- **A cache key binds what it is made of**, for texts that can be cut in
one way. Where they cannot it does not. Whatever ids have a `|` in them,
others have the same key; whatever digest has a `=` in its name, one of
another name has the same key; and whatever artifact has two digests or
more, one with other digests, a `;digest.` in a value of them, has the
same key. -/
theorem cache_key_binds (hsha : Function.Injective GoStd.sha256) :
    (∀ (providerID capabilityID providerID' capabilityID' : String) (a a' : Artifact),
      Separable providerID capabilityID a → Separable providerID' capabilityID' a' →
      resultCacheKey providerID capabilityID a = resultCacheKey providerID' capabilityID' a' →
      providerID = providerID' ∧ capabilityID = capabilityID' ∧
        fingerprintPurl a = fingerprintPurl a' ∧ a.digests = a'.digests ∧
        contentURI a = contentURI a') ∧
    (∀ (providerID capabilityID : String) (a : Artifact),
      '|' ∈ providerID.toList ∨ '|' ∈ capabilityID.toList →
      ∃ providerID' capabilityID', providerID' ≠ providerID ∧
        resultCacheKey providerID' capabilityID' a = resultCacheKey providerID capabilityID a) ∧
    (∀ (providerID capabilityID : String) (a : Artifact) (k v : String), '=' ∈ k.toList →
      ∃ k' v', k' ≠ k ∧
        resultCacheKey providerID capabilityID { a with digests := Finmap.singleton k' v' } =
          resultCacheKey providerID capabilityID { a with digests := Finmap.singleton k v }) ∧
    ∀ (providerID capabilityID : String) (a : Artifact) (k k' : String),
      k ∈ a.digests → k' ∈ a.digests → k ≠ k' →
      ∃ digests, digests ≠ a.digests ∧
        resultCacheKey providerID capabilityID { a with digests := digests } =
          resultCacheKey providerID capabilityID a := by
  refine ⟨?_, ?_, ?_, ?_⟩
  · intro _ _ _ _ a a' h h' heq
    exact binds_of_separable hsha h h' heq
  · intro _ _ a h
    exact bar_moves a h
  · intro providerID capabilityID a k v h
    exact equals_moves providerID capabilityID a v h
  · intro providerID capabilityID a k k' hk hk' hne
    exact digest_moves providerID capabilityID hk hk' hne

end Given

/-- Two artifacts that differ in nothing but the spelling of their PURL. -/
theorem cache_key_binds_spelling :
    let _ := GoStd.plain
    let a : Artifact := { purl := some "pkg:NPM/a", digests := Finmap.singleton "sha256" "00" }
    let a' : Artifact := { purl := some "pkg:npm/a", digests := Finmap.singleton "sha256" "00" }
    Function.Injective GoStd.sha256 ∧ Separable "p" "scan" a ∧ Separable "p" "scan" a' ∧
      resultCacheKey "p" "scan" a = resultCacheKey "p" "scan" a' ∧
      fingerprintPurl a = fingerprintPurl a' := by
  intro _ a a'
  have hdigest (k v : String)
      (hv : (Finmap.singleton "sha256" "00" : GoMap String).lookup k = some v) :
      k = "sha256" ∧ v = "00" := by
    have hk := (Finmap.mem_singleton k "sha256" _).mp (Finmap.mem_of_lookup_eq_some hv)
    rw [hk, Finmap.lookup_singleton_eq] at hv
    exact ⟨hk, (Option.some.inj hv).symm⟩
  have hsep {b : Artifact} (hp : fingerprintPurl b = some "pkg:npm/a")
      (hb : b.digests = Finmap.singleton "sha256" "00") : Separable "p" "scan" b := by
    refine ⟨by decide, by decide, ?_, ?_⟩
    · intro k v hv
      rw [(hdigest k v (hb ▸ hv)).1]
      decide
    · have hparts : leadingParts b = ["purl=pkg:npm/a", "digest.sha256=00"] := by
        rw [leadingParts, hp, hb]
        decide +kernel
      rw [hparts]
      decide
  have hsha : Function.Injective GoStd.sha256 := Function.injective_id
  have ha := hsep (show fingerprintPurl a = some "pkg:npm/a" by decide +kernel) rfl
  have ha' := hsep (show fingerprintPurl a' = some "pkg:npm/a" by decide +kernel) rfl
  have hkey : resultCacheKey "p" "scan" a = resultCacheKey "p" "scan" a' := by decide +kernel
  exact ⟨hsha, ha, ha', hkey,
    ((cache_key_binds hsha).1 "p" "scan" "p" "scan" a a' ha ha' hkey).2.2.1⟩

/-- A digest whose value has a `;` in it gets the key of an artifact with
two digests. -/
theorem digest_value_forges_digest :
    let _ := GoStd.plain
    let a : Artifact :=
      { purl := some "pkg:npm/a"
        digests := (Finmap.singleton "sha256" "00").insert "sha512" "11" }
    let a' : Artifact :=
      { purl := some "pkg:npm/a", digests := Finmap.singleton "sha256" "00;digest.sha512=11" }
    Function.Injective GoStd.sha256 ∧
      resultCacheKey "p" "scan" a = resultCacheKey "p" "scan" a' ∧ a.digests ≠ a'.digests := by
  intro _ a a'
  refine ⟨Function.injective_id, ?_, ?_⟩
  · decide +kernel
  · decide +kernel

/-! ## Spellings -/

section Given

variable [GoStd]

theorem fingerprintPurl_of_canonical {a : Artifact} {s c : String} (hp : a.purl = some s)
    (hne : s ≠ "") (hc : canonicalPurl s = .ok c) : fingerprintPurl a = some c := by
  simp only [fingerprintPurl, hp, hne, if_false, hc]

/-- **Spelling does not matter.** PURLs that differ only in the letter
case of the type and of qualifier keys, the order of qualifiers with
different keys, segments that are passed over and, where the type folds
it, the letter case of the namespace and the name, have one canonical
form, and artifacts that differ only in them one cache key. -/
theorem spelling_keeps_key {s s' : String} {d d' : PurlSyntax} (hs : s = d.text)
    (hs' : s' = d'.text) (h : d.Alike d') (providerID capabilityID : String) (a : Artifact) :
    canonicalPurl s = canonicalPurl s' ∧
      resultCacheKey providerID capabilityID { a with purl := some s } =
        resultCacheKey providerID capabilityID { a with purl := some s' } := by
  subst hs hs'
  have hcanonical (d : PurlSyntax) : canonicalPurl d.text = .ok d.record.text := by
    rw [canonicalPurl, d.parsePurl_text]
  have hne (d : PurlSyntax) : d.text ≠ "" := by
    intro hempty
    have hlist := congrArg String.toList hempty
    rw [PurlSyntax.text, String.toList_ofList] at hlist
    cases hlist
  have hleading : leadingParts { a with purl := some d.text } =
      leadingParts { a with purl := some d'.text } := by
    rw [leadingParts, leadingParts, fingerprintPurl_of_canonical rfl (hne d) (hcanonical d),
      fingerprintPurl_of_canonical rfl (hne d') (hcanonical d'), h.record_eq]
  have hprint : artifactFingerprint { a with purl := some d.text } =
      artifactFingerprint { a with purl := some d'.text } := by
    rw [artifactFingerprint_eq, artifactFingerprint_eq, hleading]
    rfl
  refine ⟨?_, ?_⟩
  · rw [hcanonical, hcanonical, h.record_eq]
  · rw [resultCacheKey_eq, resultCacheKey_eq, hprint]

end Given

/-- A PURL and its tidy spelling. -/
theorem spelling_keeps_key_pypi :
    let _ := GoStd.plain
    let s := "pkg:PyPI/NS/Name?B=2&&x&A=1"
    let s' := "pkg:pypi/ns/name?a=1&b=2"
    canonicalPurl s = canonicalPurl s' ∧
      resultCacheKey "p" "scan" { purl := some s } =
        resultCacheKey "p" "scan" { purl := some s' } := by
  intro _ s s'
  let d : PurlSyntax :=
    { type := "PyPI".toList, path := .within "NS".toList "Name".toList none
      segments := ["B=2".toList, "".toList, "x".toList, "A=1".toList], fragment := none
      type_ne := by decide, type_clean := forall_mem_of_all (by decide)
      path_wellFormed := ⟨by decide, by decide⟩, path_clean := forall_mem_of_all (by decide)
      segments_clean := by decide, fragment_clean := by simp }
  let d' : PurlSyntax :=
    { type := "pypi".toList, path := .within "ns".toList "name".toList none
      segments := ["a=1".toList, "b=2".toList], fragment := none
      type_ne := by decide, type_clean := forall_mem_of_all (by decide)
      path_wellFormed := ⟨by decide, by decide⟩, path_clean := forall_mem_of_all (by decide)
      segments_clean := by decide, fragment_clean := by simp }
  have hsegments : Relation.EqvGen Respelled d.segments d'.segments := by
    have hempty := @Respelled.skip _ ["B=2".toList] ["x".toList, "A=1".toList] [] (by decide)
    have hx := @Respelled.skip _ ["B=2".toList] ["A=1".toList] ['x'] (by decide)
    have hb := @Respelled.keyCase _ [] ["A=1".toList] ['B'] ['b'] ['2'] (by decide) (by decide)
      (by decide)
    have ha := @Respelled.keyCase _ ["b=2".toList] [] ['A'] ['a'] ['1'] (by decide) (by decide)
      (by decide)
    have hswap := @Respelled.swap _ [] [] ['b'] ['a'] ['2'] ['1'] (by decide) (by decide)
      (by decide)
    exact .trans _ _ _ (.rel _ _ hempty) (.trans _ _ _ (.rel _ _ hx) (.trans _ _ _ (.rel _ _ hb)
      (.trans _ _ _ (.rel _ _ ha) (.rel _ _ hswap))))
  have halike : d.Alike d' :=
    ⟨by decide, .within none (by decide) (by decide), hsegments, rfl⟩
  have hs : s = d.text := by decide
  have hs' : s' = d'.text := by decide
  exact spelling_keeps_key hs hs' halike "p" "scan" {}

end Scintx.Orchestrator
