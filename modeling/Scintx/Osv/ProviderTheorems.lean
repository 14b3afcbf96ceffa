/-
Scintx.Osv.ProviderTheorems — the OSV provider fails closed.

`lookUp_spec` accounts for everything an assessment can ask and come to:
the pages of the PURL decide, or the pages of every registry do, or an
exchange failed and nothing was decided. `assess_fails_closed` reads the
verdict off this account. No path leads from a failed exchange, or from
a page that was not read, to a verdict.
-/
import Scintx.Osv.Paging
import Scintx.Osv.Provider

namespace Scintx.Osv

open Scintx.Lib Scintx.Api

def idsOf (vulns : List Vulnerability) : List String :=
  vulns.map (·.id)

/-! ## Merging by id -/

/-- `m` is what merging `vs` comes to. -/
structure Merging.Of (m : Merging) (vs : List Vulnerability) : Prop where
  seen : ∀ id, id ∈ m.seen ↔ id ≠ "" ∧ id ∈ idsOf vs
  ids : ∀ id, id ∈ idsOf m.merged ↔ id ∈ idsOf vs
  once : ∀ id ∈ idsOf vs, id ≠ "" → (idsOf m.merged).count id = 1

theorem idsOf_append_singleton (vs : List Vulnerability) (v : Vulnerability) :
    idsOf (vs ++ [v]) = idsOf vs ++ [v.id] := by
  simp [idsOf]

theorem Merging.Of.add {m : Merging} {vs : List Vulnerability} (h : m.Of vs)
    (v : Vulnerability) : (m.add v).Of (vs ++ [v]) := by
  unfold Merging.add
  split
  · rename_i hempty
    refine ⟨?_, ?_, ?_⟩ <;> intro id
    · rw [h.seen, idsOf_append_singleton]
      grind
    · rw [idsOf_append_singleton, idsOf_append_singleton]
      grind [h.ids id]
    · intro hid hne
      rw [idsOf_append_singleton] at hid ⊢
      have hold : id ∈ idsOf vs := by grind
      rw [List.count_append, h.once id hold hne, List.count_eq_zero.mpr (by grind)]
  · rename_i hne
    split
    · rename_i hseen
      have hv : v.id ∈ idsOf vs := ((h.seen v.id).mp hseen).2
      have hmem (id : String) : id ∈ idsOf (vs ++ [v]) ↔ id ∈ idsOf vs := by
        rw [idsOf_append_singleton]
        grind
      refine ⟨fun id => ?_, fun id => ?_, fun id hid => ?_⟩
      · rw [hmem, h.seen]
      · rw [hmem, h.ids]
      · exact h.once id ((hmem id).mp hid)
    · rename_i hnew
      have hv : v.id ∉ idsOf vs := fun hmem => hnew ((h.seen v.id).mpr ⟨hne, hmem⟩)
      refine ⟨?_, ?_, ?_⟩ <;> intro id
      · rw [idsOf_append_singleton, List.mem_cons, h.seen]
        grind
      · rw [idsOf_append_singleton, idsOf_append_singleton]
        grind [h.ids id]
      · intro hid hne'
        rw [idsOf_append_singleton] at hid ⊢
        rw [List.count_append]
        by_cases heq : id = v.id
        · subst heq
          have hfresh : v.id ∉ idsOf m.merged := fun hmem => hv ((h.ids v.id).mp hmem)
          rw [List.count_eq_zero.mpr hfresh, List.count_singleton_self]
        · have hold : id ∈ idsOf vs := by grind
          rw [h.once id hold hne', List.count_eq_zero.mpr (by grind)]

theorem Merging.Of.foldl {m : Merging} {vs : List Vulnerability} (h : m.Of vs)
    (ws : List Vulnerability) : (ws.foldl Merging.add m).Of (vs ++ ws) := by
  induction ws generalizing m vs with
  | nil => rwa [List.append_nil]
  | cons w ws ih =>
    have hrest := ih (h.add w)
    rwa [List.append_assoc] at hrest

/-- What the registries' vulnerabilities are merged to. -/
def mergeVulns (vs : List Vulnerability) : List Vulnerability :=
  (vs.foldl Merging.add {}).merged

theorem mergeVulns_of (vs : List Vulnerability) : (vs.foldl Merging.add {}).Of vs := by
  have hempty : ({} : Merging).Of [] := by
    refine ⟨fun id => ?_, fun id => ?_, fun id hid => ?_⟩
    · simp [idsOf]
    · simp [idsOf]
    · simp [idsOf] at hid
  exact hempty.foldl vs

theorem mergeVulns_eq_nil_iff (vs : List Vulnerability) : mergeVulns vs = [] ↔ vs = [] := by
  have hids := (mergeVulns_of vs).ids
  constructor
  · intro hnil
    cases vs with
    | nil => rfl
    | cons v vs =>
      have hmem := (hids v.id).mpr (by simp [idsOf])
      change v.id ∈ idsOf (mergeVulns (v :: vs)) at hmem
      rw [hnil] at hmem
      cases hmem
  · intro hnil
    subst hnil
    rfl

/-! ## The registries -/

section Registries

variable [GoJson] {c : Client} {server : Server}

/-- The pages of every registry, one registry after the other. -/
inductive RegistryPages (c : Client) (server : Server) :
    List VscodeEcosystemQuery → Wire → Wire → Prop
  | none {wire : Wire} : RegistryPages c server [] wire []
  | next {q : VscodeEcosystemQuery} {rest : List VscodeEcosystemQuery} {wire xs ys : Wire}
      (hxs : Pages c server { ecosystem := q.ecosystem, name := q.name } q.version wire "" xs)
      (hys : RegistryPages c server rest (wire ++ xs) ys) :
      RegistryPages c server (q :: rest) wire (xs ++ ys)

theorem RegistryPages.succeeded {queries : List VscodeEcosystemQuery} {wire ys : Wire}
    (h : RegistryPages c server queries wire ys) : ∀ y ∈ ys, y.2.Succeeded := by
  induction h with
  | none =>
    intro y hy
    cases hy
  | next hxs hys ih => exact List.forall_mem_append.mpr ⟨hxs.succeeded, ih⟩

/-- **What the loop over the registries comes to**: the vulnerabilities of
all pages of all registries, or the error of its last exchange. -/
theorem queryRegistries_spec {queries : List VscodeEcosystemQuery} {rounds : Nat} {wire : Wire}
    {m : Merging} {rawPages : List String}
    {res : Except ClientError (List Vulnerability × List String) × Wire}
    (h : c.queryRegistries server rounds queries wire m rawPages = some res) :
    Fetched wire (fun ys vulns => RegistryPages c server queries wire ys ∧
      vulns = (ys.vulns.foldl Merging.add m).merged) res := by
  induction queries generalizing wire m rawPages with
  | nil =>
    cases h
    exact .got_nil rawPages ⟨.none, rfl⟩
  | cons q rest ih =>
    unfold Client.queryRegistries at h
    split at h
    · cases h
    · rename_i e wire' hq
      cases h
      cases query_spec hq with
      | failed hxs hx => exact .failed hxs hx
    · rename_i vulns raw wire' hq
      cases query_spec hq with
      | @got xs _ _ hgot =>
        obtain ⟨hxs, rfl⟩ := hgot
        refine (ih h).after hxs.succeeded ?_
        intro ys vulns hys
        refine ⟨.next hxs hys.1, ?_⟩
        rw [hys.2, Wire.vulns_append, List.foldl_append]

/-- Registries whose pages all succeed are all asked. -/
theorem RegistryPages.query_eq {queries : List VscodeEcosystemQuery} {wire ys : Wire}
    (hpages : RegistryPages c server queries wire ys) {rounds : Nat} {m : Merging}
    {rawPages : List String}
    {res : Except ClientError (List Vulnerability × List String) × Wire}
    (h : c.queryRegistries server rounds queries wire m rawPages = some res) :
    ∃ raw, res = (.ok ((ys.vulns.foldl Merging.add m).merged, raw), wire ++ ys) := by
  induction hpages generalizing m rawPages with
  | none =>
    cases h
    exact ⟨rawPages, by rw [List.append_nil]; rfl⟩
  | next hxs hys ih =>
    unfold Client.queryRegistries at h
    split at h
    · cases h
    · rename_i e wire' hq
      obtain ⟨raw, heq⟩ := hxs.query_eq hq
      cases heq
    · rename_i vulns raw wire' hq
      obtain ⟨raw', heq⟩ := hxs.query_eq hq
      cases heq
      obtain ⟨raws, heq⟩ := ih h
      rw [heq, Wire.vulns_append, List.foldl_append, List.append_assoc]
      exact ⟨raws, rfl⟩

theorem queryRegistries_ends (hend : PagesEnd c server) (queries : List VscodeEcosystemQuery)
    (wire : Wire) (m : Merging) (rawPages : List String) : ∃ n res, ∀ rounds ≥ n,
      c.queryRegistries server rounds queries wire m rawPages = some res := by
  induction queries generalizing wire m rawPages with
  | nil => exact ⟨0, _, fun rounds _ => rfl⟩
  | cons q rest ih =>
    obtain ⟨n, res, hq⟩ := query_ends hend wire { ecosystem := q.ecosystem, name := q.name }
      q.version
    obtain ⟨got, wire'⟩ := res
    cases got with
    | error e =>
      refine ⟨n, (.error e, wire'), fun rounds hle => ?_⟩
      simp only [Client.queryRegistries, Client.queryByEcosystem, hq rounds hle]
    | ok got =>
      obtain ⟨k, res, hrest⟩ := ih wire' (got.1.foldl Merging.add m) (rawPages ++ [got.2])
      refine ⟨max n k, res, fun rounds hle => ?_⟩
      have hn : rounds ≥ n := le_trans (Nat.le_max_left n k) hle
      have hk : rounds ≥ k := le_trans (Nat.le_max_right n k) hle
      simp only [Client.queryRegistries, Client.queryByEcosystem, hq rounds hn, hrest rounds hk]

end Registries

/-! ## The queries of an assessment -/

section Given

variable [GoStd] [GoUrl] [GoJson] {c : Client} {server : Server} {canonical : String}

/-- All that the queries of an assessment can come to. -/
inductive LookedUp (c : Client) (server : Server) (canonical : String) : QueryResult → Prop
  | purl {xs : Wire} {raw : String} (hxs : Pages c server { purl := canonical } "" [] "" xs)
      (h : xs.vulns = [] → purlType canonical ≠ .ok "vscode-extension") :
      LookedUp c server canonical (.ok (xs.vulns, raw), xs)
  | registries {xs ys : Wire} {queries : List VscodeEcosystemQuery} {raw : String}
      (hxs : Pages c server { purl := canonical } "" [] "" xs) (hnone : xs.vulns = [])
      (htype : purlType canonical = .ok "vscode-extension")
      (hqueries : vscodeExtensionQueries canonical = .ok queries)
      (hys : RegistryPages c server queries xs ys) :
      LookedUp c server canonical (.ok (mergeVulns ys.vulns, raw), xs ++ ys)
  /-- The PURL does not say which extension it is. -/
  | refused {xs : Wire} {e : String} (hxs : ∀ x ∈ xs, x.2.Succeeded) (hnone : xs.vulns = []) :
      LookedUp c server canonical (.error (.other e), xs)
  | failed {xs : Wire} {x : HttpRequest × Exchange} {e : ClientError}
      (hxs : ∀ y ∈ xs, y.2.Succeeded) (hx : readExchange x.2 = .error e) :
      LookedUp c server canonical (.error e, xs ++ [x])

theorem queryVSCodeExtension_spec {xs : Wire} {rounds : Nat} {res : QueryResult}
    (hxs : Pages c server { purl := canonical } "" [] "" xs) (hnone : xs.vulns = [])
    (htype : purlType canonical = .ok "vscode-extension")
    (h : c.queryVSCodeExtension server rounds xs canonical = some res) :
    LookedUp c server canonical res := by
  unfold Client.queryVSCodeExtension at h
  split at h
  · cases h
    exact .refused hxs.succeeded hnone
  · rename_i queries hqueries
    split at h
    · cases h
    · rename_i e wire hq
      cases h
      cases queryRegistries_spec hq with
      | failed hys hx => exact .failed (List.forall_mem_append.mpr ⟨hxs.succeeded, hys⟩) hx
    · rename_i merged rawPages wire hq
      cases h
      cases queryRegistries_spec hq with
      | got hgot =>
        obtain ⟨hys, rfl⟩ := hgot
        exact .registries hxs hnone htype hqueries hys

/-- **What the queries of an assessment come to.** -/
theorem lookUp_spec {rounds : Nat} {res : QueryResult}
    (h : c.lookUp server rounds canonical = some res) : LookedUp c server canonical res := by
  unfold Client.lookUp at h
  split at h
  · cases h
  · rename_i e wire hq
    cases h
    cases query_spec hq with
    | failed hxs hx => exact .failed hxs hx
  · rename_i vulns raw wire hq
    cases query_spec hq with
    | @got xs _ _ hgot =>
      obtain ⟨hxs, rfl⟩ := hgot
      split at h
      · rename_i hnone
        split at h
        · rename_i e htype
          cases h
          refine .purl hxs fun _ => ?_
          rw [htype]
          intro hcontra
          cases hcontra
        · rename_i typ htype
          split at h
          · rename_i hvscode
            subst hvscode
            exact queryVSCodeExtension_spec hxs hnone htype h
          · rename_i hother
            cases h
            refine .purl hxs fun _ hcontra => hother ?_
            rw [htype] at hcontra
            exact Except.ok.inj hcontra
      · rename_i hsome
        cases h
        exact .purl hxs fun hnone => absurd hnone hsome

theorem queryByPURL_of_pages {xs : Wire} (hxs : Pages c server { purl := canonical } "" [] "" xs)
    {rounds : Nat} {res : QueryResult} (h : c.lookUp server rounds canonical = some res) :
    ∃ raw, c.queryByPURL server rounds [] canonical = some (.ok (xs.vulns, raw), xs) := by
  cases hq : c.queryByPURL server rounds [] canonical with
  | none =>
    simp only [Client.lookUp, hq] at h
    cases h
  | some got =>
    obtain ⟨raw, rfl⟩ := hxs.query_eq hq
    exact ⟨raw, rfl⟩

theorem lookUp_of_pages {xs : Wire} (hxs : Pages c server { purl := canonical } "" [] "" xs)
    (hsome : xs.vulns ≠ []) {rounds : Nat} {res : QueryResult}
    (h : c.lookUp server rounds canonical = some res) : ∃ raw, res = (.ok (xs.vulns, raw), xs) := by
  obtain ⟨raw, hq⟩ := queryByPURL_of_pages hxs h
  simp only [Client.lookUp, hq, if_neg hsome] at h
  cases h
  exact ⟨raw, rfl⟩

theorem lookUp_of_registries {xs ys : Wire} {queries : List VscodeEcosystemQuery}
    (hxs : Pages c server { purl := canonical } "" [] "" xs) (hnone : xs.vulns = [])
    (htype : purlType canonical = .ok "vscode-extension")
    (hqueries : vscodeExtensionQueries canonical = .ok queries)
    (hys : RegistryPages c server queries xs ys) {rounds : Nat} {res : QueryResult}
    (h : c.lookUp server rounds canonical = some res) :
    ∃ raw, res = (.ok (mergeVulns ys.vulns, raw), xs ++ ys) := by
  obtain ⟨raw, hq⟩ := queryByPURL_of_pages hxs h
  simp only [Client.lookUp, hq, if_pos hnone, htype, if_true, Client.queryVSCodeExtension,
    hqueries] at h
  split at h
  · cases h
  · rename_i e wire hr
    obtain ⟨raws, heq⟩ := hys.query_eq hr
    cases heq
  · rename_i merged rawPages wire hr
    obtain ⟨raws, heq⟩ := hys.query_eq hr
    cases heq
    cases h
    exact ⟨_, rfl⟩

theorem queryVSCodeExtension_ends (hend : PagesEnd c server) (wire : Wire) (canonical : String) :
    ∃ n res, ∀ rounds ≥ n, c.queryVSCodeExtension server rounds wire canonical = some res := by
  unfold Client.queryVSCodeExtension
  cases vscodeExtensionQueries canonical with
  | error e => exact ⟨0, _, fun rounds _ => rfl⟩
  | ok queries =>
    obtain ⟨n, res, hres⟩ := queryRegistries_ends hend queries wire {} []
    obtain ⟨got, wire'⟩ := res
    cases got with
    | error e => exact ⟨n, (.error e, wire'), fun rounds hle => by simp only [hres rounds hle]⟩
    | ok got => exact ⟨n, _, fun rounds hle => by simp only [hres rounds hle]; rfl⟩

theorem lookUp_ends (hend : PagesEnd c server) (canonical : String) :
    ∃ n res, ∀ rounds ≥ n, c.lookUp server rounds canonical = some res := by
  obtain ⟨n, res, hq⟩ := query_ends hend [] { purl := canonical } ""
  obtain ⟨k, res', hr⟩ := queryVSCodeExtension_ends hend res.2 canonical
  obtain ⟨got, wire⟩ := res
  have hlookUp : ∃ res, ∀ rounds, n ≤ rounds → k ≤ rounds →
      c.lookUp server rounds canonical = some res := by
    cases got with
    | error e =>
      refine ⟨(.error e, wire), fun rounds hn _ => ?_⟩
      simp only [Client.lookUp, Client.queryByPURL, hq rounds hn]
    | ok got =>
      by_cases hfall : got.1 = [] ∧ purlType canonical = .ok "vscode-extension"
      · refine ⟨res', fun rounds hn hk => ?_⟩
        simp only [Client.lookUp, Client.queryByPURL, hq rounds hn, if_pos hfall.1, hfall.2,
          if_true, hr rounds hk]
      · refine ⟨(.ok got, wire), fun rounds hn _ => ?_⟩
        simp only [Client.lookUp, Client.queryByPURL, hq rounds hn]
        split
        · rename_i hnone
          split
          · rfl
          · rename_i typ htype
            have hother : typ ≠ "vscode-extension" := fun heq => hfall ⟨hnone, heq ▸ htype⟩
            rw [if_neg hother]
        · rfl
  obtain ⟨res, hres⟩ := hlookUp
  refine ⟨max n k, res, fun rounds hle => hres rounds ?_ ?_⟩
  · exact le_trans (Nat.le_max_left n k) hle
  · exact le_trans (Nat.le_max_right n k) hle

/-! ## The result -/

/-- Completed, with the verdict `fail`. -/
def OsvResult.Fails (res : OsvResult) : Prop :=
  res.execution.status = .completed ∧ res.verdict.map (·.value) = some .fail

/-- An error, without a verdict. -/
def OsvResult.Undecided (res : OsvResult) : Prop :=
  res.execution.status = .error ∧ res.verdict = none

def OsvResult.findingIDs (res : OsvResult) : List String :=
  res.findings.map (·.id)

omit [GoStd] [GoUrl] [GoJson] in
theorem mapClientError_undecided (env : AssessEnv) (e : ClientError) :
    (mapClientError env e).Undecided := by
  cases e <;> exact ⟨rfl, rfl⟩

section Completed

variable [GoFloat] (p : Provider) (env : AssessEnv) (canonical : String)
  (vulns : List Vulnerability) (raw : String)

omit [GoUrl] [GoJson] in
theorem completedResult_findingIDs :
    (p.completedResult env canonical vulns raw).findingIDs = idsOf vulns := by
  simp [Provider.completedResult, OsvResult.findingIDs, vulnsToFindings, idsOf, vulnToFinding]

omit [GoUrl] [GoJson] in
theorem completedResult_verdict :
    (p.completedResult env canonical vulns raw).verdict.map (·.value) =
      some (if vulns = [] then .pass else .fail) := by
  simp only [Provider.completedResult, verdictFromFindings, vulnsToFindings, List.map_eq_nil_iff,
    Option.map_some]
  split <;> rfl

omit [GoUrl] [GoJson] in
theorem completedResult_fails {vulns : List Vulnerability} (h : vulns ≠ []) :
    (p.completedResult env canonical vulns raw).Fails := by
  refine ⟨rfl, ?_⟩
  rw [completedResult_verdict, if_neg h]

end Completed

/-! ## The assessment -/

section Assessment

variable [GoFloat] {p : Provider} {env : AssessEnv} {rounds : Nat} {artifact : Artifact}

/-- All that an assessment can come to. -/
inductive Assessed (p : Provider) (env : AssessEnv) (server : Server) (rounds : Nat)
    (artifact : Artifact) : OsvResult × Wire → Prop
  | unnamed {code : ProviderErrorCode} {msg : String}
      (h : ∀ purl canonical, artifact.purl = some purl → canonicalPurl purl ≠ .ok canonical) :
      Assessed p env server rounds artifact (errorResult env code msg, [])
  | failed {purl canonical : String} {e : ClientError} {wire : Wire}
      (hpurl : artifact.purl = some purl) (hcanonical : canonicalPurl purl = .ok canonical)
      (h : (p.clientIn env).lookUp server rounds canonical = some (.error e, wire)) :
      Assessed p env server rounds artifact (mapClientError env e, wire)
  | completed {purl canonical raw : String} {vulns : List Vulnerability} {wire : Wire}
      (hpurl : artifact.purl = some purl) (hcanonical : canonicalPurl purl = .ok canonical)
      (h : (p.clientIn env).lookUp server rounds canonical = some (.ok (vulns, raw), wire)) :
      Assessed p env server rounds artifact (p.completedResult env canonical vulns raw, wire)

theorem assess_spec {out : OsvResult × Wire}
    (h : p.assess env server rounds artifact = some out) :
    Assessed p env server rounds artifact out := by
  unfold Provider.assess at h
  split at h
  · rename_i hpurl
    cases h
    refine .unnamed fun purl canonical hcontra => ?_
    rw [hpurl] at hcontra
    cases hcontra
  · rename_i purl hpurl
    split at h
    · rename_i e hcanonical
      cases h
      refine .unnamed fun purl' canonical hpurl' hcontra => ?_
      obtain rfl : purl = purl' := Option.some.inj (hpurl.symm.trans hpurl')
      rw [hcanonical] at hcontra
      cases hcontra
    · rename_i canonical hcanonical
      split at h
      · cases h
      · rename_i e wire hlook
        cases h
        exact .failed hpurl hcanonical hlook
      · rename_i vulns raw wire hlook
        cases h
        exact .completed hpurl hcanonical hlook

theorem assess_ends (p : Provider) (env : AssessEnv) (artifact : Artifact)
    (hend : PagesEnd (p.clientIn env) server) :
    ∃ n out, ∀ rounds ≥ n, p.assess env server rounds artifact = some out := by
  unfold Provider.assess
  cases artifact.purl with
  | none => exact ⟨0, _, fun rounds _ => rfl⟩
  | some purl =>
    simp only
    cases canonicalPurl purl with
    | error e => exact ⟨0, _, fun rounds _ => rfl⟩
    | ok canonical =>
      obtain ⟨n, res, hres⟩ := lookUp_ends hend canonical
      obtain ⟨got, wire⟩ := res
      cases got with
      | error e => exact ⟨n, _, fun rounds hle => by simp only [hres rounds hle]; rfl⟩
      | ok got => exact ⟨n, _, fun rounds hle => by simp only [hres rounds hle]; rfl⟩

/-- A PURL that is looked up gives a result of the look-up's kind. -/
theorem assess_of_lookUp {purl canonical : String} {out : OsvResult × Wire}
    {vulns : List Vulnerability} {wire : Wire} (h : p.assess env server rounds artifact = some out)
    (hpurl : artifact.purl = some purl) (hcanonical : canonicalPurl purl = .ok canonical)
    (hlook : ∀ res, (p.clientIn env).lookUp server rounds canonical = some res →
      ∃ raw, res = (.ok (vulns, raw), wire)) :
    ∃ raw, out = (p.completedResult env canonical vulns raw, wire) := by
  cases assess_spec h with
  | unnamed hnone => exact absurd hcanonical (hnone purl canonical hpurl)
  | @failed purl' canonical' e wire' hpurl' hcanonical' hres =>
    obtain rfl : purl' = purl := Option.some.inj (hpurl'.symm.trans hpurl)
    obtain rfl : canonical' = canonical := Except.ok.inj (hcanonical'.symm.trans hcanonical)
    obtain ⟨raw, heq⟩ := hlook _ hres
    cases heq
  | @completed purl' canonical' raw' vulns' wire' hpurl' hcanonical' hres =>
    obtain rfl : purl' = purl := Option.some.inj (hpurl'.symm.trans hpurl)
    obtain rfl : canonical' = canonical := Except.ok.inj (hcanonical'.symm.trans hcanonical)
    obtain ⟨raw, heq⟩ := hlook _ hres
    cases heq
    exact ⟨raw', rfl⟩

/-- What has been asked when an assessment says `pass`: the pages of the
PURL `xs` and, for a VS Code extension, those of every registry `ys`. -/
structure AllAsked (c : Client) (server : Server) (artifact : Artifact) (wire : Wire) : Prop where
  succeeded : ∀ x ∈ wire, x.2.Succeeded
  clean : wire.vulns = []
  asked : ∃ purl canonical xs ys, artifact.purl = some purl ∧ canonicalPurl purl = .ok canonical ∧
    wire = xs ++ ys ∧ Pages c server { purl := canonical } "" [] "" xs ∧
    (purlType purl = .ok "vscode-extension" → ∃ queries,
      vscodeExtensionQueries canonical = .ok queries ∧ RegistryPages c server queries xs ys) ∧
    (purlType purl ≠ .ok "vscode-extension" → ys = [])

theorem assess_pass (hl : GoStd.LowerLaws) {res : OsvResult} {wire : Wire}
    (h : p.assess env server rounds artifact = some (res, wire))
    (hpass : res.verdict.map (·.value) = some .pass) :
    AllAsked (p.clientIn env) server artifact wire := by
  cases assess_spec h with
  | unnamed _ => cases hpass
  | @failed _ _ e _ _ _ _ =>
    rw [(mapClientError_undecided env e).2] at hpass
    cases hpass
  | @completed purl canonical raw vulns _ hpurl hcanonical hlook =>
    have hempty : vulns = [] := by
      rw [completedResult_verdict] at hpass
      by_contra hsome
      rw [if_neg hsome] at hpass
      cases hpass
    have htypes := purlType_canonicalPurl hl hcanonical
    cases lookUp_spec hlook with
    | purl hxs hother =>
      refine ⟨hxs.succeeded, hempty, purl, canonical, _, [], hpurl, hcanonical,
        (List.append_nil _).symm, hxs, fun htype => ?_, fun _ => rfl⟩
      exact absurd (htypes.trans htype) (hother hempty)
    | @registries xs ys queries _ hxs hnone htype hqueries hys =>
      have hclean : ys.vulns = [] := (mergeVulns_eq_nil_iff _).mp hempty
      refine ⟨?_, ?_, purl, canonical, xs, ys, hpurl, hcanonical, rfl, hxs,
        fun _ => ⟨queries, hqueries, hys⟩, fun hother => absurd (htypes.symm.trans htype) hother⟩
      · exact List.forall_mem_append.mpr ⟨hxs.succeeded, hys.succeeded⟩
      · rw [Wire.vulns_append, hnone, hclean, List.append_nil]

theorem assess_failed {res : OsvResult} {wire : Wire}
    (h : p.assess env server rounds artifact = some (res, wire))
    (hfail : ∃ x ∈ wire, ¬ x.2.Succeeded) : res.Undecided := by
  obtain ⟨x, hx, hfail⟩ := hfail
  cases assess_spec h with
  | unnamed _ => cases hx
  | @failed _ _ e _ _ _ _ => exact mapClientError_undecided env e
  | completed _ _ hlook =>
    cases lookUp_spec hlook with
    | purl hxs _ => exact absurd (hxs.succeeded x hx) hfail
    | registries hxs _ _ _ hys =>
      rcases List.mem_append.mp hx with hx | hx
      · exact absurd (hxs.succeeded x hx) hfail
      · exact absurd (hys.succeeded x hx) hfail

/-- **The provider fails closed.** If the page sequences of the server end,
there is a result. Whatever the server does:

- `pass` means that every exchange succeeded, that all pages were read,
  of the PURL and for a VS Code extension of every registry, and that
  there was no vulnerability on any of them;
- if the pages of the PURL have vulnerabilities, the result is `fail`,
  with their ids;
- if those of the registries decide and have vulnerabilities, the result
  is `fail`, with exactly their ids, and each id that is not empty once;
- after a failed exchange the result is an error without a verdict. -/
theorem assess_fails_closed (hl : GoStd.LowerLaws) (p : Provider) (env : AssessEnv)
    (server : Server) (artifact : Artifact) :
    (PagesEnd (p.clientIn env) server →
      ∃ n out, ∀ rounds ≥ n, p.assess env server rounds artifact = some out) ∧
    ∀ rounds res wire, p.assess env server rounds artifact = some (res, wire) →
      (res.verdict.map (·.value) = some .pass →
        AllAsked (p.clientIn env) server artifact wire) ∧
      (∀ purl canonical xs, artifact.purl = some purl → canonicalPurl purl = .ok canonical →
        Pages (p.clientIn env) server { purl := canonical } "" [] "" xs → xs.vulns ≠ [] →
        wire = xs ∧ res.Fails ∧ res.findingIDs = idsOf xs.vulns) ∧
      (∀ purl canonical queries xs ys, artifact.purl = some purl →
        canonicalPurl purl = .ok canonical →
        Pages (p.clientIn env) server { purl := canonical } "" [] "" xs → xs.vulns = [] →
        purlType purl = .ok "vscode-extension" → vscodeExtensionQueries canonical = .ok queries →
        RegistryPages (p.clientIn env) server queries xs ys → ys.vulns ≠ [] →
        wire = xs ++ ys ∧ res.Fails ∧ (∀ id, id ∈ res.findingIDs ↔ id ∈ idsOf ys.vulns) ∧
          ∀ id ∈ idsOf ys.vulns, id ≠ "" → res.findingIDs.count id = 1) ∧
      ((∃ x ∈ wire, ¬ x.2.Succeeded) → res.Undecided) := by
  refine ⟨assess_ends p env artifact, fun rounds res wire h => ⟨assess_pass hl h, ?_, ?_,
    assess_failed h⟩⟩
  · intro purl canonical xs hpurl hcanonical hxs hsome
    obtain ⟨raw, heq⟩ := assess_of_lookUp h hpurl hcanonical
      fun res hres => lookUp_of_pages hxs hsome hres
    cases heq
    exact ⟨rfl, completedResult_fails p env canonical raw hsome,
      completedResult_findingIDs p env canonical _ raw⟩
  · intro purl canonical queries xs ys hpurl hcanonical hxs hnone htype hqueries hys hsome
    have htype' : purlType canonical = .ok "vscode-extension" :=
      (purlType_canonicalPurl hl hcanonical).trans htype
    obtain ⟨raw, heq⟩ := assess_of_lookUp h hpurl hcanonical
      fun res hres => lookUp_of_registries hxs hnone htype' hqueries hys hres
    cases heq
    have hmerged := mergeVulns_of ys.vulns
    have hsome' : mergeVulns ys.vulns ≠ [] := fun hnil => hsome ((mergeVulns_eq_nil_iff _).mp hnil)
    rw [completedResult_findingIDs]
    exact ⟨rfl, completedResult_fails p env canonical raw hsome', hmerged.ids, hmerged.once⟩

end Assessment

end Given

/-- No text is a number. -/
@[reducible] def GoFloat.plain : GoFloat where
  parseFloat _ := none

/-- An extension that OSV does not know by its PURL and that two registries
list as malware. -/
theorem assess_fails_closed_malware :
    let _ := GoStd.plain
    let _ := GoUrl.plain
    let _ := GoFloat.plain
    let _ := GoJson.plain [("none", { vulns := [] }),
      ("one", { vulns := [{ id := "MAL-2026-2231" }] })]
    let server : Server := fun _ req =>
      .answered 200 (if req.body.package.purl = "" then "one" else "none")
    let artifact : Artifact := { purl := some "pkg:vscode-extension/checkmarx/ast-results@2.56.0" }
    let p : Provider := { client := some {} }
    GoStd.LowerLaws ∧ PagesEnd (p.clientIn {}) server ∧
      ∃ res wire, p.assess {} server 1 artifact = some (res, wire) ∧ wire.length = 3 ∧
        res.Fails ∧ res.findingIDs.count "MAL-2026-2231" = 1 := by
  intro _ _ _ _ server artifact p
  have hanswer (wire : Wire) (pkg : QueryPackage) (version : String) :
      server wire ((p.clientIn {}).request pkg version "") =
        .answered 200 (if pkg.purl = "" then "one" else "none") := rfl
  have hend : PagesEnd (p.clientIn {}) server := by
    intro wire pkg version
    refine ⟨1, ?_⟩
    simp only [trail, Option.bind_some, Client.nextPage, Client.ask, hanswer]
    by_cases hpurl : pkg.purl = ""
    · simp only [if_pos hpurl]
      rfl
    · simp only [if_neg hpurl]
      rfl
  have hlast (wire : Wire) (pkg : QueryPackage) (version : String) :
      Pages (p.clientIn {}) server pkg version wire ""
        [(p.clientIn {}).ask server pkg version wire ""] := by
    by_cases hpurl : pkg.purl = ""
    · refine @Pages.last _ _ _ _ _ wire "" "one" { vulns := [{ id := "MAL-2026-2231" }] } ?_ rfl
      simp only [Client.ask, hanswer, if_pos hpurl]
      rfl
    · refine @Pages.last _ _ _ _ _ wire "" "none" { vulns := [] } ?_ rfl
      simp only [Client.ask, hanswer, if_neg hpurl]
      rfl
  have hrun : (p.assess {} server 1 artifact).isSome := by decide +kernel
  obtain ⟨out, hout⟩ := Option.isSome_iff_exists.mp hrun
  obtain ⟨-, hall⟩ := assess_fails_closed lowerLaws_plain p {} server artifact
  obtain ⟨-, -, hregistries, -⟩ := hall 1 out.1 out.2 hout
  obtain ⟨hwire, hfails, -, honce⟩ := hregistries
    "pkg:vscode-extension/checkmarx/ast-results@2.56.0"
    "pkg:vscode-extension/checkmarx/ast-results@2.56.0"
    [{ ecosystem := "VSCode:https://open-vsx.org", name := "checkmarx.ast-results"
       version := "2.56.0" },
     { ecosystem := "VSCode:https://marketplace.visualstudio.com", name := "checkmarx.ast-results"
       version := "2.56.0" }] _ _ rfl (by decide +kernel) (hlast _ _ _) (by decide +kernel)
    (by decide +kernel) (by decide +kernel) (.next (hlast _ _ _) (.next (hlast _ _ _) .none))
    (by decide +kernel)
  refine ⟨lowerLaws_plain, hend, out.1, out.2, hout, ?_, hfails, ?_⟩
  · rw [hwire]
    rfl
  · exact honce "MAL-2026-2231" (by decide +kernel) (by decide)

end Scintx.Osv
