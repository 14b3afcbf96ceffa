/-
Scintx.Orchestrator.Correlation — which findings get one correlation key
(`internal/scintx/aggregator.go`, `correlationKey`).

A key is the hash of a text with a TAG in front: `sca/v1` for a finding
with identifiers, `secret/v1` for a secret without, and the provider's id
for the rest. Two questions about it.

Do findings of one vulnerability get one key? The text has ALL the CVE
identifiers of a finding, sorted, so sharing one of them is not enough:
the two sets have to be equal (`shared_cve_correlates`).

Do findings with one key belong together? A finding whose identifiers are
all blank has none left in its key, so two of them on one package have one
key and nothing else in common. Apart from those they do, as long as the
`|` and `,` that the text is put together with, and that nothing escapes,
do not stand in its pieces (`same_key_related`).
-/
import Scintx.Lib.Text
import Scintx.Orchestrator.Aggregator

namespace Scintx.Orchestrator

open Scintx.Lib Scintx.Api

/-! ## Identifiers -/

/-- The texts of `known` that begin with `CVE-`, or those that do not, each
once. -/
structure Collects (cve : Bool) (known l : List String) : Prop where
  mem : ∀ v, v ∈ l ↔ v ∈ known ∧ hasPrefix v "CVE-" = cve
  once : l.Nodup

namespace Collects

variable {cve : Bool} {known known' l : List String} {norm : String}

theorem congr (h : Collects cve known l) (hsame : ∀ v, v ∈ known' ↔ v ∈ known) :
    Collects cve known' l := by
  refine ⟨?_, h.once⟩
  intro v
  rw [h.mem, hsame]

/-- A new text of the kind is added. -/
theorem take (h : Collects cve known l) (hgrow : ∀ v, v ∈ known' ↔ v ∈ known ∨ v = norm)
    (hnew : norm ∉ known) (hkind : hasPrefix norm "CVE-" = cve) :
    Collects cve known' (l ++ [norm]) := by
  refine ⟨?_, ?_⟩
  · intro v
    rw [hgrow, List.mem_append, List.mem_singleton, h.mem]
    constructor
    · rintro (⟨hv, hp⟩ | rfl)
      · exact ⟨.inl hv, hp⟩
      · exact ⟨.inr rfl, hkind⟩
    · rintro ⟨hv | rfl, hp⟩
      · exact .inl ⟨hv, hp⟩
      · exact .inr rfl
  · have hfresh : norm ∉ l := fun hv => hnew ((h.mem norm).mp hv).1
    exact List.concat_eq_append ▸ List.Nodup.concat hfresh h.once

/-- One of the other kind is not. -/
theorem skip (h : Collects cve known l) (hgrow : ∀ v, v ∈ known' ↔ v ∈ known ∨ v = norm)
    (hkind : hasPrefix norm "CVE-" ≠ cve) : Collects cve known' l := by
  refine ⟨?_, h.once⟩
  intro v
  rw [hgrow, h.mem]
  constructor
  · exact fun hv => ⟨.inl hv.1, hv.2⟩
  · rintro ⟨hv | rfl, hp⟩
    · exact ⟨hv, hp⟩
    · exact absurd hp hkind

end Collects

section Given

variable [GoStd]

/-- The identifiers of a finding, trimmed and in upper case; blank ones
are dropped. -/
def identifiersOf (ids : List TypedIdentifier) : List String :=
  (ids.map fun id => normalize id.value).filter (· ≠ "")

/-- Those that are CVE identifiers. -/
def cvesOf (ids : List TypedIdentifier) : List String :=
  (identifiersOf ids).filter fun v => hasPrefix v "CVE-"

theorem identifiersOf_snoc (ids : List TypedIdentifier) (id : TypedIdentifier) :
    identifiersOf (ids ++ [id]) =
      identifiersOf ids ++ if normalize id.value = "" then [] else [normalize id.value] := by
  by_cases h : normalize id.value = "" <;> simp [identifiersOf, h]

/-- What the loop over the identifiers has collected. -/
structure ScanSpec (ids : List TypedIdentifier) (st : IdentifierScan) : Prop where
  seen : ∀ v, v ∈ st.seen ↔ v ∈ identifiersOf ids
  cves : Collects true (identifiersOf ids) st.cves
  others : Collects false (identifiersOf ids) st.others

theorem ScanSpec.round {ids : List TypedIdentifier} {st : IdentifierScan} (h : ScanSpec ids st)
    (id : TypedIdentifier) : ScanSpec (ids ++ [id]) (st.round id) := by
  have hsnoc := identifiersOf_snoc ids id
  unfold IdentifierScan.round
  simp only
  generalize normalize id.value = norm at hsnoc ⊢
  by_cases hskip : norm = "" ∨ norm ∈ st.seen
  · -- blank, or seen before: the same identifiers
    rw [if_pos hskip]
    have hsame : ∀ v, v ∈ identifiersOf (ids ++ [id]) ↔ v ∈ identifiersOf ids := by
      intro v
      rw [hsnoc]
      by_cases hblank : norm = ""
      · simp [hblank]
      · have hold := (h.seen norm).mp (hskip.resolve_left hblank)
        simp only [hblank, if_false, List.mem_append, List.mem_singleton]
        constructor
        · rintro (hv | rfl)
          · exact hv
          · exact hold
        · exact Or.inl
    exact ⟨fun v => (h.seen v).trans (hsame v).symm, h.cves.congr hsame, h.others.congr hsame⟩
  · rw [if_neg hskip]
    obtain ⟨hblank, hnew⟩ := not_or.mp hskip
    have hgrow : ∀ v, v ∈ identifiersOf (ids ++ [id]) ↔ v ∈ identifiersOf ids ∨ v = norm := by
      intro v
      rw [hsnoc]
      simp [hblank]
    have hseen : ∀ v, v ∈ norm :: st.seen ↔ v ∈ identifiersOf (ids ++ [id]) := by
      intro v
      rw [hgrow, List.mem_cons, h.seen]
      exact or_comm
    have hunseen : norm ∉ identifiersOf ids := fun hv => hnew ((h.seen norm).mpr hv)
    by_cases hcve : hasPrefix norm "CVE-" = true
    · rw [if_pos hcve]
      exact ⟨hseen, h.cves.take hgrow hunseen hcve, h.others.skip hgrow (by simp [hcve])⟩
    · rw [if_neg hcve]
      exact ⟨hseen, h.cves.skip hgrow hcve, h.others.take hgrow hunseen (by simpa using hcve)⟩

theorem scanSpec_scanIdentifiers (ids : List TypedIdentifier) :
    ScanSpec ids (scanIdentifiers ids) := by
  induction ids using List.reverseRecOn with
  | nil =>
    exact ⟨fun v => Iff.rfl, ⟨fun v => by simp [scanIdentifiers, identifiersOf], List.nodup_nil⟩,
      ⟨fun v => by simp [scanIdentifiers, identifiersOf], List.nodup_nil⟩⟩
  | append_singleton ids id ih =>
    have hstep : scanIdentifiers (ids ++ [id]) = (scanIdentifiers ids).round id := by
      simp [scanIdentifiers]
    rw [hstep]
    exact ih.round id

/-- The CVE identifiers, if there are any, and all of them if not. -/
theorem mem_anchorIdentifiers {ids : List TypedIdentifier} {v : String} :
    v ∈ anchorIdentifiers ids ↔
      v ∈ if cvesOf ids = [] then identifiersOf ids else cvesOf ids := by
  have hscan := scanSpec_scanIdentifiers ids
  have hcves : (scanIdentifiers ids).cves = [] ↔ cvesOf ids = [] := by
    simp only [List.eq_nil_iff_forall_not_mem, cvesOf, List.mem_filter, hscan.cves.mem]
  unfold anchorIdentifiers
  simp only [ne_eq, sortStrings_eq_nil, hcves]
  by_cases hnone : cvesOf ids = []
  · simp only [hnone, not_true_eq_false, if_false, if_true, mem_sortStrings, hscan.others.mem]
    refine and_iff_left_of_imp ?_
    intro hv
    by_contra hp
    have hmem : v ∈ cvesOf ids := List.mem_filter.mpr ⟨hv, by simpa using hp⟩
    rw [hnone] at hmem
    cases hmem
  · simp only [hnone, not_false_eq_true, if_true, if_false, mem_sortStrings, hscan.cves.mem]
    rw [cvesOf, List.mem_filter]

/-- Findings of the same CVE identifiers have the same anchor. -/
theorem anchorIdentifiers_congr {ids ids' : List TypedIdentifier} (hcve : cvesOf ids ≠ [])
    (h : ∀ v, v ∈ cvesOf ids ↔ v ∈ cvesOf ids') :
    anchorIdentifiers ids = anchorIdentifiers ids' := by
  have hscan := scanSpec_scanIdentifiers ids
  have hscan' := scanSpec_scanIdentifiers ids'
  have hmem (v : String) : v ∈ (scanIdentifiers ids).cves ↔ v ∈ (scanIdentifiers ids').cves := by
    simpa only [cvesOf, List.mem_filter, ← hscan.cves.mem, ← hscan'.cves.mem] using h v
  have hperm := (List.perm_ext_iff_of_nodup hscan.cves.once hscan'.cves.once).mpr hmem
  have hne : (scanIdentifiers ids).cves ≠ [] := by
    obtain ⟨v, hv⟩ := List.exists_mem_of_ne_nil _ hcve
    exact List.ne_nil_of_mem ((hscan.cves.mem v).mpr (List.mem_filter.mp hv))
  have hsort := sortStrings_perm hperm
  unfold anchorIdentifiers
  simp only [← hsort, ne_eq, sortStrings_eq_nil, hne, not_false_eq_true, if_true]

theorem anchorIdentifiers_ne_nil {ids : List TypedIdentifier} (h : identifiersOf ids ≠ []) :
    anchorIdentifiers ids ≠ [] := by
  by_cases hnone : cvesOf ids = []
  · obtain ⟨v, hv⟩ := List.exists_mem_of_ne_nil _ h
    exact List.ne_nil_of_mem (mem_anchorIdentifiers.mpr (by rwa [if_pos hnone]))
  · obtain ⟨v, hv⟩ := List.exists_mem_of_ne_nil _ hnone
    exact List.ne_nil_of_mem (mem_anchorIdentifiers.mpr (by rwa [if_neg hnone]))

/-- Whatever is in the anchor is an identifier of the finding. -/
theorem identifier_of_anchor {ids : List TypedIdentifier} {v : String}
    (h : v ∈ anchorIdentifiers ids) : v ∈ identifiersOf ids := by
  rw [mem_anchorIdentifiers] at h
  split at h
  · exact h
  · exact (List.mem_filter.mp h).1

/-! ## The text under the hash -/

/-- What stands before the first `|` that the code puts in. -/
def keyTag (p : SourcePair) : String :=
  if p.finding.identifiers ≠ [] then "sca/v1"
  else if p.finding.type = "secret" then "secret/v1"
  else p.result.provider.id

/-- What stands behind it. -/
def keyBody (p : SourcePair) : String :=
  if p.finding.identifiers ≠ [] then
    firstSubjectPURL p.finding ++ "|" ++ join (anchorIdentifiers p.finding.identifiers) ","
  else if p.finding.type = "secret" then
    p.finding.type ++ "|" ++ firstSubjectPURL p.finding
  else p.finding.id

theorem key_eq (p : SourcePair) : p.key = hashStr (keyTag p ++ "|" ++ keyBody p) := by
  unfold SourcePair.key correlationKey keyTag keyBody
  simp only
  split
  · simp only [String.append_assoc]
    rfl
  · split
    · simp only [String.append_assoc]
      rfl
    · rfl

/-! ## One vulnerability, one key -/

/-- A merged finding is made of all observations that have its key. -/
theorem mem_aggregate_findings {a : DefaultAggregator} {randHex : String} {now : Time}
    {results : List ProviderResult} {m : MergedFinding} :
    m ∈ (a.aggregate randHex now results).findings ↔
      ∃ k p₀ ps, withKey SourcePair.key (observations results) k = p₀ :: ps ∧
        m = buildMergedFinding k p₀ ps (if a.strategy = "" then "max" else a.strategy)
          a.providerWeights := by
  simp only [DefaultAggregator.aggregate, List.mem_filterMap, Prod.exists, mem_groupBy]
  constructor
  · rintro ⟨k, pairs, ⟨hpairs, hne⟩, hm⟩
    cases pairs with
    | nil => exact absurd rfl hne
    | cons p₀ ps => exact ⟨k, p₀, ps, hpairs.symm, (Option.some.inj hm).symm⟩
  · rintro ⟨k, p₀, ps, hpairs, rfl⟩
    exact ⟨k, p₀ :: ps, ⟨hpairs.symm, by simp⟩, rfl⟩

theorem mem_withKey {l : List SourcePair} {k : String} {p : SourcePair} :
    p ∈ withKey SourcePair.key l k ↔ p ∈ l ∧ p.key = k := by
  rw [withKey, List.mem_filter, decide_eq_true_eq]

/-- Observations of one key are sources of one merged finding, and only
one has that key. -/
theorem one_merged_finding (a : DefaultAggregator) (randHex : String) (now : Time)
    {results : List ProviderResult} {p q : SourcePair} (hp : p ∈ observations results)
    (hq : q ∈ observations results) (hkey : p.key = q.key) :
    ∃ m ∈ (a.aggregate randHex now results).findings,
      m.correlationKey = p.key ∧ p.source ∈ m.sources ∧ q.source ∈ m.sources ∧
      ∀ m' ∈ (a.aggregate randHex now results).findings, m'.correlationKey = p.key → m' = m := by
  have hpg : p ∈ withKey SourcePair.key (observations results) p.key := mem_withKey.mpr ⟨hp, rfl⟩
  have hqg : q ∈ withKey SourcePair.key (observations results) p.key :=
    mem_withKey.mpr ⟨hq, hkey.symm⟩
  cases hgroup : withKey SourcePair.key (observations results) p.key with
  | nil => simp [hgroup] at hpg
  | cons p₀ ps =>
    rw [hgroup] at hpg hqg
    refine ⟨_, mem_aggregate_findings.mpr ⟨p.key, p₀, ps, hgroup, rfl⟩, rfl,
      List.mem_map_of_mem hpg, List.mem_map_of_mem hqg, ?_⟩
    intro m' hm' hmkey
    obtain ⟨k, p₁, ps₁, hgroup', rfl⟩ := mem_aggregate_findings.mp hm'
    obtain rfl : k = p.key := hmkey
    rw [hgroup] at hgroup'
    cases hgroup'
    rfl

/-- The two findings cite the same CVE identifiers. -/
def SameCVEs (f f' : Finding) : Prop :=
  ∀ v, v ∈ cvesOf f.identifiers ↔ v ∈ cvesOf f'.identifiers

theorem identifiers_ne_nil_of_cve {f : Finding} (h : cvesOf f.identifiers ≠ []) :
    f.identifiers ≠ [] := by
  intro hnil
  rw [hnil] at h
  exact h rfl

/-- **Findings of one vulnerability correlate when they cite the same CVE
identifiers**, and, as far as keys can tell, only then. The findings `p`
and `q` have one first subject and share a CVE identifier. If all their
CVE identifiers are the same they have one key, and every aggregation
that has both puts them into one merged finding. If one of them cites a
CVE that the other one does not, their keys differ, as long as the digest
is injective and no CVE identifier has a comma in it. -/
theorem shared_cve_correlates {p q : SourcePair}
    (hpurl : firstSubjectPURL p.finding = firstSubjectPURL q.finding)
    (hshared : ∃ v, v ∈ cvesOf p.finding.identifiers ∧ v ∈ cvesOf q.finding.identifiers) :
    (SameCVEs p.finding q.finding →
      correlationKey p.result p.finding = correlationKey q.result q.finding ∧
      ∀ (a : DefaultAggregator) (randHex : String) (now : Time) (results : List ProviderResult),
        p ∈ observations results → q ∈ observations results →
        ∃ m ∈ (a.aggregate randHex now results).findings,
          m.correlationKey = p.key ∧ p.source ∈ m.sources ∧ q.source ∈ m.sources ∧
          ∀ m' ∈ (a.aggregate randHex now results).findings,
            m'.correlationKey = p.key → m' = m) ∧
    (Function.Injective GoStd.sha256 →
      (∀ v ∈ cvesOf p.finding.identifiers ++ cvesOf q.finding.identifiers, ',' ∉ v.toList) →
      correlationKey p.result p.finding = correlationKey q.result q.finding →
      SameCVEs p.finding q.finding) := by
  obtain ⟨v, hp, hq⟩ := hshared
  have hpne := List.ne_nil_of_mem hp
  have hqne := List.ne_nil_of_mem hq
  have hpids := identifiers_ne_nil_of_cve hpne
  have hqids := identifiers_ne_nil_of_cve hqne
  constructor
  · intro hsame
    have hkey : p.key = q.key := by
      rw [key_eq, key_eq, keyTag, keyTag, keyBody, keyBody, if_pos hpids, if_pos hpids,
        if_pos hqids, if_pos hqids, hpurl, anchorIdentifiers_congr hpne hsame]
    exact ⟨hkey, fun a randHex now results hp hq => one_merged_finding a randHex now hp hq hkey⟩
  · intro hsha hcomma hkey
    -- equal hashes of texts that agree up to the anchor
    have hkey : p.key = q.key := hkey
    rw [key_eq, key_eq, keyTag, keyTag, keyBody, keyBody, if_pos hpids, if_pos hpids,
      if_pos hqids, if_pos hqids, hpurl] at hkey
    have htext := congrArg String.toList (hashStr_injective hsha hkey)
    simp only [String.toList_append, List.append_assoc, List.append_cancel_left_eq] at htext
    have hmem (r : SourcePair) (hr : cvesOf r.finding.identifiers ≠ []) (x : String) :
        x ∈ anchorIdentifiers r.finding.identifiers ↔ x ∈ cvesOf r.finding.identifiers := by
      rw [mem_anchorIdentifiers, if_neg hr]
    have hanchor : anchorIdentifiers p.finding.identifiers =
        anchorIdentifiers q.finding.identifiers := by
      refine join_injective toList_comma ?_ ?_ ?_ ?_ (String.toList_inj.mp htext)
      · exact fun x hx => hcomma x (List.mem_append_left _ ((hmem p hpne x).mp hx))
      · exact fun x hx => hcomma x (List.mem_append_right _ ((hmem q hqne x).mp hx))
      · exact List.ne_nil_of_mem ((hmem p hpne v).mpr hp)
      · exact List.ne_nil_of_mem ((hmem q hqne v).mpr hq)
    intro x
    rw [← hmem p hpne, ← hmem q hqne, hanchor]

end Given

/-- An observation of one finding by one provider, about `pkg:npm/a`. -/
def observationOf (providerID findingID : String) (ids : List TypedIdentifier) : SourcePair :=
  let f : Finding :=
    { id := findingID, type := "vulnerability", identifiers := ids
      subjects := [{ purl := some "pkg:npm/a" }] }
  { result :=
      { id := "res_" ++ providerID, provider := { id := providerID }
        execution := { status := .completed }, findings := [f] }
    finding := f }

/-- Two providers cite one CVE, one of them with a GHSA id beside it. -/
theorem shared_cve_correlates_ghsa :
    let _ := GoStd.plain
    let p := observationOf "osv" "f1" [⟨"cve", "CVE-2024-1"⟩]
    let q := observationOf "grype" "f2" [⟨"ghsa", "GHSA-x"⟩, ⟨"cve", " cve-2024-1"⟩]
    firstSubjectPURL p.finding = firstSubjectPURL q.finding ∧
    (∃ v, v ∈ cvesOf p.finding.identifiers ∧ v ∈ cvesOf q.finding.identifiers) ∧
    correlationKey p.result p.finding = correlationKey q.result q.finding := by
  intro _ p q
  have hpurl : firstSubjectPURL p.finding = firstSubjectPURL q.finding := by decide
  have hcves : cvesOf p.finding.identifiers = ["CVE-2024-1"] ∧
      cvesOf q.finding.identifiers = ["CVE-2024-1"] := by decide +kernel
  have hshared : ∃ v, v ∈ cvesOf p.finding.identifiers ∧ v ∈ cvesOf q.finding.identifiers :=
    ⟨"CVE-2024-1", by simp [hcves.1], by simp [hcves.2]⟩
  have hsame : SameCVEs p.finding q.finding := by
    intro v
    rw [hcves.1, hcves.2]
  exact ⟨hpurl, hshared, ((shared_cve_correlates hpurl hshared).1 hsame).1⟩

/-- Two providers cite one CVE, one of them a second one as well: their
keys differ, and the vulnerability is counted twice. -/
theorem second_cve_splits :
    let _ := GoStd.plain
    let p := observationOf "osv" "f1" [⟨"cve", "CVE-2024-1"⟩]
    let q := observationOf "grype" "f2" [⟨"cve", "CVE-2024-1"⟩, ⟨"cve", "CVE-2024-2"⟩]
    firstSubjectPURL p.finding = firstSubjectPURL q.finding ∧
    ("CVE-2024-1" ∈ cvesOf p.finding.identifiers ∧ "CVE-2024-1" ∈ cvesOf q.finding.identifiers) ∧
    correlationKey p.result p.finding ≠ correlationKey q.result q.finding ∧
    (newDefaultAggregator.aggregate "m" 0 [p.result, q.result]).findings.length = 2 := by
  decide +kernel

/-! ## One key, one vulnerability -/

section Given

variable [GoStd]

/-- What two findings of one key are promised to have in common. -/
def Related (p q : SourcePair) : Prop :=
  (firstSubjectPURL p.finding = firstSubjectPURL q.finding ∧
    ∃ v ∈ identifiersOf p.finding.identifiers, v ∈ identifiersOf q.finding.identifiers) ∨
  ((p.finding.identifiers = [] ∧ p.finding.type = "secret") ∧
    (q.finding.identifiers = [] ∧ q.finding.type = "secret") ∧
    firstSubjectPURL p.finding = firstSubjectPURL q.finding) ∨
  (p.result.provider.id = q.result.provider.id ∧ p.finding.id = q.finding.id)

instance (p q : SourcePair) : Decidable (Related p q) :=
  inferInstanceAs (Decidable (_ ∨ _ ∨ _))

/-- The text under the key of a finding can be cut in one way: its subject
has no `|` and its identifiers no `,`; or, where the provider's id is the
tag, that id has no `|` and is none of the fixed tags. -/
def Unambiguous (p : SourcePair) : Prop :=
  if p.finding.identifiers ≠ [] then
    '|' ∉ (firstSubjectPURL p.finding).toList ∧
      ∀ v ∈ identifiersOf p.finding.identifiers, ',' ∉ v.toList
  else if p.finding.type = "secret" then True
  else
    '|' ∉ p.result.provider.id.toList ∧ p.result.provider.id ≠ "sca/v1" ∧
      p.result.provider.id ≠ "secret/v1"

instance (p : SourcePair) : Decidable (Unambiguous p) :=
  inferInstanceAs (Decidable (ite _ _ _))

/-- There are identifiers, and all of them are blank. -/
def BlankIdentifiers (f : Finding) : Prop :=
  f.identifiers ≠ [] ∧ identifiersOf f.identifiers = []

instance (f : Finding) : Decidable (BlankIdentifiers f) :=
  inferInstanceAs (Decidable (_ ∧ _))

/-- Two findings on one package whose identifiers are all blank are one
finding. -/
def BlanksAgree (p q : SourcePair) : Prop :=
  BlankIdentifiers p.finding → BlankIdentifiers q.finding →
    firstSubjectPURL p.finding = firstSubjectPURL q.finding →
    p.result.provider.id = q.result.provider.id ∧ p.finding.id = q.finding.id

instance (p q : SourcePair) : Decidable (BlanksAgree p q) :=
  inferInstanceAs (Decidable (_ → _ → _ → _))

theorem bar_not_mem_keyTag {p : SourcePair} (h : Unambiguous p) : '|' ∉ (keyTag p).toList := by
  unfold Unambiguous at h
  unfold keyTag
  split
  · decide
  · rename_i hids
    rw [if_neg hids] at h
    split
    · decide
    · rename_i hsecret
      rw [if_neg hsecret] at h
      exact h.1

/-- The tag tells the three kinds of findings apart. -/
theorem kind_of_keyTag {p q : SourcePair} (hp : Unambiguous p) (hq : Unambiguous q)
    (h : keyTag p = keyTag q) :
    (p.finding.identifiers ≠ [] ↔ q.finding.identifiers ≠ []) ∧
      (p.finding.identifiers = [] → q.finding.identifiers = [] →
        (p.finding.type = "secret" ↔ q.finding.type = "secret")) := by
  have hne : "sca/v1" ≠ "secret/v1" := by decide
  unfold Unambiguous at hp hq
  unfold keyTag at h
  by_cases hpids : p.finding.identifiers = [] <;> by_cases hqids : q.finding.identifiers = [] <;>
    by_cases hps : p.finding.type = "secret" <;> by_cases hqs : q.finding.type = "secret" <;>
    simp_all

theorem anchorIdentifiers_of_blank {ids : List TypedIdentifier} (h : identifiersOf ids = []) :
    anchorIdentifiers ids = [] := by
  rw [List.eq_nil_iff_forall_not_mem]
  intro v hv
  have hid := identifier_of_anchor hv
  rw [h] at hid
  cases hid

/-- Nothing but the package is left in the key of blank identifiers. -/
theorem key_of_blank {p q : SourcePair} (hp : BlankIdentifiers p.finding)
    (hq : BlankIdentifiers q.finding)
    (hpurl : firstSubjectPURL p.finding = firstSubjectPURL q.finding) : p.key = q.key := by
  rw [key_eq, key_eq, keyTag, keyTag, keyBody, keyBody, if_pos hp.1, if_pos hp.1, if_pos hq.1,
    if_pos hq.1, hpurl, anchorIdentifiers_of_blank hp.2, anchorIdentifiers_of_blank hq.2]

/-- An anchor is empty for blank identifiers only, also as a text. -/
theorem blank_of_join {ids : List TypedIdentifier} (h : join (anchorIdentifiers ids) "," = "") :
    identifiersOf ids = [] := by
  by_contra hne
  obtain ⟨v, hv⟩ := List.exists_mem_of_ne_nil _ (anchorIdentifiers_ne_nil hne)
  have hid := identifier_of_anchor hv
  rw [join_eq_empty h v hv, identifiersOf, List.mem_filter] at hid
  simp at hid

/-- Two findings with identifiers and one text: the subject is the same,
and so is an identifier, unless all are blank. -/
theorem related_of_anchor {p q : SourcePair} (hp : Unambiguous p) (hq : Unambiguous q)
    (hpids : p.finding.identifiers ≠ []) (hqids : q.finding.identifiers ≠ [])
    (hblank : BlanksAgree p q) (hbody : keyBody p = keyBody q) : Related p q := by
  unfold Unambiguous at hp hq
  rw [if_pos hpids] at hp
  rw [if_pos hqids] at hq
  unfold keyBody at hbody
  rw [if_pos hpids, if_pos hqids] at hbody
  -- the first bar ends the subject
  obtain ⟨hpurl, hjoin⟩ := append_text_inj toList_bar hp.1 hq.1 hbody
  by_cases hpb : identifiersOf p.finding.identifiers = []
  · have hqb : identifiersOf q.finding.identifiers = [] := by
      refine blank_of_join ?_
      rw [← hjoin, anchorIdentifiers_of_blank hpb]
      rfl
    exact .inr (.inr (hblank ⟨hpids, hpb⟩ ⟨hqids, hqb⟩ hpurl))
  · have hqb : identifiersOf q.finding.identifiers ≠ [] := by
      intro hqb
      refine hpb (blank_of_join ?_)
      rw [hjoin, anchorIdentifiers_of_blank hqb]
      rfl
    have hanchor : anchorIdentifiers p.finding.identifiers =
        anchorIdentifiers q.finding.identifiers :=
      join_injective toList_comma
        (fun v hv => hp.2 v (identifier_of_anchor hv))
        (fun v hv => hq.2 v (identifier_of_anchor hv))
        (anchorIdentifiers_ne_nil hpb) (anchorIdentifiers_ne_nil hqb) hjoin
    obtain ⟨v, hv⟩ := List.exists_mem_of_ne_nil _ (anchorIdentifiers_ne_nil hpb)
    exact .inl ⟨hpurl, v, identifier_of_anchor hv, identifier_of_anchor (hanchor ▸ hv)⟩

/-- Two findings without identifiers and one text under the key. -/
theorem related_of_plain {p q : SourcePair} (hpids : p.finding.identifiers = [])
    (hqids : q.finding.identifiers = [])
    (hsecret : p.finding.type = "secret" ↔ q.finding.type = "secret")
    (htag : keyTag p = keyTag q) (hbody : keyBody p = keyBody q) : Related p q := by
  simp only [keyTag, keyBody, hpids, hqids, ne_eq, not_true_eq_false, if_false] at htag hbody
  by_cases hps : p.finding.type = "secret"
  · have hqs := hsecret.mp hps
    rw [if_pos hps, if_pos hqs, hps, hqs] at hbody
    have hpurl := (append_text_inj toList_bar (by decide) (by decide) hbody).2
    exact .inr (.inl ⟨⟨hpids, hps⟩, ⟨hqids, hqs⟩, hpurl⟩)
  · have hqs : ¬ q.finding.type = "secret" := fun h => hps (hsecret.mpr h)
    rw [if_neg hps, if_neg hqs] at htag hbody
    exact .inr (.inr ⟨htag, hbody⟩)

theorem related_of_key (hsha : Function.Injective GoStd.sha256) {p q : SourcePair}
    (hp : Unambiguous p) (hq : Unambiguous q) (hblank : BlanksAgree p q) (hkey : p.key = q.key) :
    Related p q := by
  rw [key_eq, key_eq] at hkey
  -- the first bar ends the tag
  obtain ⟨htag, hbody⟩ := append_text_inj toList_bar (bar_not_mem_keyTag hp)
    (bar_not_mem_keyTag hq) (hashStr_injective hsha hkey)
  obtain ⟨hids, hsecret⟩ := kind_of_keyTag hp hq htag
  by_cases hpids : p.finding.identifiers = []
  · have hqids : q.finding.identifiers = [] := by
      by_contra hne
      exact hids.mpr hne hpids
    exact related_of_plain hpids hqids (hsecret hpids hqids) htag hbody
  · exact related_of_anchor hp hq hpids (hids.mp hpids) hblank hbody

/-- Findings with blank identifiers are related only as one finding. -/
theorem blanksAgree_of_related {p q : SourcePair} (h : p.key = q.key → Related p q) :
    BlanksAgree p q := by
  intro hp hq hpurl
  rcases h (key_of_blank hp hq hpurl) with ⟨-, v, hv, -⟩ | ⟨⟨hnil, -⟩, -⟩ | hsame
  · rw [hp.2] at hv
    cases hv
  · exact absurd hnil hp.1
  · exact hsame

/-- **Which unrelated findings get one key.** The digest is injective. If
the texts under the keys can be cut in one way, two findings of one key
are related exactly if they are not two findings on one package that have
only blank identifiers; and those get one key, whatever else is in them.
Without them, all sources of a merged finding are related. -/
theorem same_key_related (hsha : Function.Injective GoStd.sha256) :
    (∀ p q : SourcePair, Unambiguous p → Unambiguous q →
      ((correlationKey p.result p.finding = correlationKey q.result q.finding → Related p q) ↔
        BlanksAgree p q)) ∧
    (∀ p q : SourcePair, BlankIdentifiers p.finding → BlankIdentifiers q.finding →
      firstSubjectPURL p.finding = firstSubjectPURL q.finding →
      correlationKey p.result p.finding = correlationKey q.result q.finding) ∧
    ∀ (a : DefaultAggregator) (randHex : String) (now : Time) (results : List ProviderResult),
      (∀ p ∈ observations results,
        Unambiguous p ∧ ∀ q ∈ observations results, BlanksAgree p q) →
      ∀ m ∈ (a.aggregate randHex now results).findings,
        ∃ pairs : List SourcePair, m.sources = pairs.map SourcePair.source ∧
          ∀ p ∈ pairs, p ∈ observations results ∧ ∀ q ∈ pairs, Related p q := by
  refine ⟨?_, fun p q hp hq hpurl => key_of_blank hp hq hpurl, ?_⟩
  · intro p q hp hq
    exact ⟨blanksAgree_of_related, fun hblank hkey => related_of_key hsha hp hq hblank hkey⟩
  · intro a randHex now results hall m hm
    obtain ⟨k, p₀, ps, hgroup, rfl⟩ := mem_aggregate_findings.mp hm
    refine ⟨p₀ :: ps, rfl, ?_⟩
    intro p hp
    rw [← hgroup] at hp
    obtain ⟨hpobs, hpkey⟩ := mem_withKey.mp hp
    refine ⟨hpobs, ?_⟩
    intro q hq
    rw [← hgroup] at hq
    obtain ⟨hqobs, hqkey⟩ := mem_withKey.mp hq
    exact related_of_key hsha (hall p hpobs).1 (hall q hqobs).1 ((hall p hpobs).2 q hqobs)
      (hpkey.trans hqkey.symm)

end Given

/-- The two observations of one CVE have one key and are related. -/
theorem same_key_related_ghsa :
    let _ := GoStd.plain
    let p := observationOf "osv" "f1" [⟨"cve", "CVE-2024-1"⟩]
    let q := observationOf "grype" "f2" [⟨"ghsa", "GHSA-x"⟩, ⟨"cve", " cve-2024-1"⟩]
    Function.Injective GoStd.sha256 ∧ Unambiguous p ∧ Unambiguous q ∧ BlanksAgree p q ∧
    correlationKey p.result p.finding = correlationKey q.result q.finding ∧ Related p q := by
  intro _ p q
  have hsha : Function.Injective GoStd.sha256 := Function.injective_id
  have hp : Unambiguous p := by decide +kernel
  have hq : Unambiguous q := by decide +kernel
  have hkey : correlationKey p.result p.finding = correlationKey q.result q.finding := by
    decide +kernel
  have hblank : BlanksAgree p q := by decide +kernel
  exact ⟨hsha, hp, hq, hblank, hkey, ((same_key_related hsha).1 p q hp hq).mpr hblank hkey⟩

/-- Two providers report records with a blank identifier, which have
nothing in common but the package. They get one key and become one
finding. -/
theorem blank_identifiers_merge :
    let _ := GoStd.plain
    let p := observationOf "osv" "f1" [⟨"osv", ""⟩]
    let q := observationOf "grype" "f2" [⟨"ghsa", " "⟩]
    Function.Injective GoStd.sha256 ∧
    correlationKey p.result p.finding = correlationKey q.result q.finding ∧ ¬ Related p q ∧
    (newDefaultAggregator.aggregate "m" 0 [p.result, q.result]).findings.length = 1 := by
  intro _ p q
  refine ⟨Function.injective_id, ?_, ?_, ?_⟩
  · decide +kernel
  · decide +kernel
  · decide +kernel

end Scintx.Orchestrator
