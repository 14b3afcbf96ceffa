/-
Scintx.Policy.Loading — the documents of the policies directory
(`LoadDir`, `LoadFile` and `Parse` of `extensions/policies/yaml/document.go`,
`LoadEngine` of `engine.go`).

`LoadDir` goes through the entries of the directory, skips what is no YAML
file, and files each document under its own id. One file that cannot be
read, decoded or validated, or an id that was there already, ends the load
with an error; so does a directory without documents. `loadDir_ok_iff` is
when it succeeds, and with which map. An engine that was loaded selects a
document exactly if a file of the directory has its id
(`loadEngine_lookup_iff`), and every document it has was validated
(`loadEngine_sound`).

`yaml.Unmarshal` and the order in which `range` visits a map are
parameters (`GoYaml`). An entry comes with what reading it answers.
-/
import Scintx.Policy.RawTheorems

namespace Scintx.Policy

open Scintx.Lib Scintx.Api

/-- `yaml.Unmarshal` into a document, and the order in which `Validate`
visits the verdicts of the document in a file. -/
class GoYaml where
  unmarshal : String → Except String Document
  verdictOrder : (path : String) → Document → List String
  verdictOrder_enumerates : ∀ (path : String) (d : Document),
    d.spec.verdicts.Enumerates (verdictOrder path d)

/-- An entry of a directory, with the answer of `os.ReadFile`. -/
structure DirEntry where
  name : String
  isDir : Bool := false
  /-- `filepath.Join` of the directory and the name. -/
  path : String
  content : Except String String

/-- `filepath.Ext`. -/
def fileExt (name : String) : String :=
  let after := name.toList.reverse.takeWhile fun c => c ≠ '.' ∧ c ≠ '/'
  match name.toList.reverse.drop after.length with
  | '.' :: _ => String.ofList ('.' :: after.reverse)
  | _ => ""

/-! ## Documents under their ids -/

/-- The map has the documents of the list, each under its id. -/
def Indexes (m : GoMap Document) (docs : List Document) : Prop :=
  ∀ id doc, m.lookup id = some doc ↔ doc ∈ docs ∧ doc.metadata.id = id

theorem Indexes.unique {m m' : GoMap Document} {docs : List Document} (h : Indexes m docs)
    (h' : Indexes m' docs) : m = m' := by
  refine Finmap.ext_lookup fun id => Option.ext fun doc => ?_
  rw [h id doc, h' id doc]

theorem Indexes.insert {m : GoMap Document} {docs : List Document} (h : Indexes m docs)
    {doc : Document} (hnew : m.lookup doc.metadata.id = none) :
    Indexes (m.insert doc.metadata.id doc) (docs ++ [doc]) := by
  intro id d
  by_cases hid : id = doc.metadata.id
  · subst hid
    rw [Finmap.lookup_insert, List.mem_append, List.mem_singleton]
    constructor
    · intro hd
      obtain rfl := Option.some.inj hd
      exact ⟨.inr rfl, rfl⟩
    · rintro ⟨hd | rfl, hd'⟩
      · rw [(h _ d).mpr ⟨hd, hd'⟩] at hnew
        cases hnew
      · rfl
  · rw [Finmap.lookup_insert_of_ne _ hid, h id d, List.mem_append, List.mem_singleton]
    constructor
    · intro hd
      exact ⟨.inl hd.1, hd.2⟩
    · rintro ⟨hd | rfl, hd'⟩
      · exact ⟨hd, hd'⟩
      · exact absurd hd'.symm hid

theorem Indexes.lookup_isSome {m : GoMap Document} {docs : List Document} (h : Indexes m docs)
    {id : String} : (m.lookup id).isSome = true ↔ id ∈ docs.map (·.metadata.id) := by
  rw [Option.isSome_iff_exists, List.mem_map]
  exact exists_congr fun doc => h id doc

theorem indexes_empty : Indexes ∅ [] := by
  intro id doc
  rw [Finmap.lookup_empty]
  simp

theorem Indexes.eq_empty_iff {m : GoMap Document} {docs : List Document} (h : Indexes m docs) :
    m = ∅ ↔ docs = [] := by
  constructor
  · intro hm
    refine List.eq_nil_iff_forall_not_mem.mpr fun doc hdoc => ?_
    have hlookup := (h doc.metadata.id doc).mpr ⟨hdoc, rfl⟩
    rw [hm, Finmap.lookup_empty] at hlookup
    cases hlookup
  · intro hdocs
    subst hdocs
    exact h.unique indexes_empty

/-! ## The loader -/

section Given

variable [GoStd]

/-- The entries `LoadDir` does not skip. -/
def isPolicyFile (e : DirEntry) : Bool :=
  let ext := toLower (fileExt e.name)
  !e.isDir && (ext = ".yaml" || ext = ".yml")

variable [GoYaml]

/-- `Parse`, of the bytes of the file at `path`. -/
def parse (path b : String) : Except String Document :=
  match GoYaml.unmarshal b with
  | .error e => .error ("yaml: " ++ e)
  | .ok doc =>
    match doc.validate (GoYaml.verdictOrder path doc) with
    | .error e => .error e
    | .ok () => .ok doc

def loadFile (e : DirEntry) : Except String Document :=
  match e.content with
  | .error err => .error ("read " ++ e.path ++ ": " ++ err)
  | .ok b =>
    match parse e.path b with
    | .error err => .error (e.path ++ ": " ++ err)
    | .ok doc => .ok doc

/-- The loop of `LoadDir`. -/
def loadEntries : List DirEntry → GoMap Document → Except String (GoMap Document)
  | [], out => .ok out
  | e :: es, out =>
    if !isPolicyFile e then loadEntries es out
    else
      match loadFile e with
      | .error err => .error err
      | .ok doc =>
        if (out.lookup doc.metadata.id).isSome then
          .error ("duplicate policy id " ++ quote doc.metadata.id ++ " in " ++ e.path)
        else loadEntries es (out.insert doc.metadata.id doc)

def loadDir (dir : String) (entries : Except String (List DirEntry)) :
    Except String (GoMap Document) :=
  match entries with
  | .error err => .error ("read policies dir " ++ quote dir ++ ": " ++ err)
  | .ok es =>
    match loadEntries es ∅ with
    | .error err => .error err
    | .ok out =>
      if out = ∅ then .error ("no policy YAML files found in " ++ quote dir) else .ok out

def loadEngine (dir : String) (entries : Except String (List DirEntry)) : Except String Engine :=
  match loadDir dir entries with
  | .error err => .error err
  | .ok docs => .ok { policies := docs, dir := dir }

/-! ## What is loaded -/

/-- The loop goes on from the documents `before` it has filed. -/
theorem loadEntries_ok_iff {es : List DirEntry} {out m : GoMap Document} {before : List Document}
    (hout : Indexes out before) (hbefore : (before.map (·.metadata.id)).Nodup) :
    loadEntries es out = .ok m ↔
      ∃ docs, (es.filter isPolicyFile).map loadFile = docs.map .ok ∧
        ((before ++ docs).map (·.metadata.id)).Nodup ∧ Indexes m (before ++ docs) := by
  induction es generalizing out before with
  | nil =>
    simp only [loadEntries, List.filter_nil, List.map_nil]
    constructor
    · intro h
      obtain rfl := Except.ok.inj h
      exact ⟨[], rfl, by rwa [List.append_nil], by rwa [List.append_nil]⟩
    · rintro ⟨docs, hdocs, -, hm⟩
      obtain rfl := List.map_eq_nil_iff.mp hdocs.symm
      rw [List.append_nil] at hm
      rw [hout.unique hm]
  | cons e es ih =>
    cases he : isPolicyFile e with
    | false =>
      rw [List.filter_cons_of_neg (by simp [he]), ← ih hout hbefore]
      simp [loadEntries, he]
    | true =>
      rw [List.filter_cons_of_pos he, List.map_cons]
      simp only [loadEntries, he, Bool.not_true, Bool.false_eq_true, if_false]
      cases hfile : loadFile e with
      | error err =>
        constructor
        · intro h
          cases h
        · rintro ⟨docs, hdocs, -, -⟩
          cases docs <;> cases hdocs
      | ok doc =>
        simp only
        split
        case isTrue hdup =>
          -- an id that is there already is refused, and it is one that repeats
          constructor
          · intro h
            cases h
          · rintro ⟨docs, hdocs, hnodup, -⟩
            cases docs with
            | nil => cases hdocs
            | cons d docs =>
              obtain rfl : doc = d := Except.ok.inj (List.cons.inj hdocs).1
              rw [List.map_append, List.nodup_append] at hnodup
              exact absurd rfl
                (hnodup.2.2 _ (hout.lookup_isSome.mp hdup) _ List.mem_cons_self)
        case isFalse hnew =>
          have hnone : out.lookup doc.metadata.id = none := Option.not_isSome_iff_eq_none.mp hnew
          have hnodup : ((before ++ [doc]).map (·.metadata.id)).Nodup := by
            rw [List.map_append, List.nodup_append]
            refine ⟨hbefore, List.nodup_singleton _, fun a ha b hb hab => hnew ?_⟩
            rw [hout.lookup_isSome]
            rwa [hab, List.mem_singleton.mp hb] at ha
          rw [ih (hout.insert hnone) hnodup]
          constructor
          · rintro ⟨docs, hdocs, hn, hm⟩
            rw [List.append_assoc] at hn hm
            exact ⟨doc :: docs, by rw [hdocs, List.map_cons], hn, hm⟩
          · rintro ⟨docs, hdocs, hn, hm⟩
            cases docs with
            | nil => cases hdocs
            | cons d docs =>
              obtain ⟨hd, hrest⟩ := List.cons.inj hdocs
              obtain rfl : doc = d := Except.ok.inj hd
              refine ⟨docs, hrest, ?_, ?_⟩
              · rwa [List.append_assoc]
              · rwa [List.append_assoc]

/-- **What `LoadDir` accepts**: there is a YAML file, every one loads, and
no two have one id. -/
theorem loadDir_ok_iff {dir : String} {es : List DirEntry} {m : GoMap Document} :
    loadDir dir (.ok es) = .ok m ↔
      ∃ docs, (es.filter isPolicyFile).map loadFile = docs.map .ok ∧ docs ≠ [] ∧
        (docs.map (·.metadata.id)).Nodup ∧ Indexes m docs := by
  have hloop := @loadEntries_ok_iff _ _ es ∅
  unfold loadDir
  constructor
  · intro h
    simp only at h
    split at h
    · cases h
    · rename_i out hout
      split at h <;> cases h
      rename_i hne
      obtain ⟨docs, hdocs, hnodup, hm⟩ := (hloop indexes_empty List.nodup_nil).mp hout
      exact ⟨docs, hdocs, fun hnil => hne (hm.eq_empty_iff.mpr hnil), hnodup, hm⟩
  · rintro ⟨docs, hdocs, hne, hnodup, hm⟩
    have hload := (hloop indexes_empty List.nodup_nil).mpr ⟨docs, hdocs, hnodup, hm⟩
    simp only [hload]
    exact if_neg fun hempty => hne (hm.eq_empty_iff.mp hempty)

theorem loadFile_ok {e : DirEntry} {doc : Document} (h : loadFile e = .ok doc) :
    doc.validate (GoYaml.verdictOrder e.path doc) = .ok () := by
  unfold loadFile at h
  split at h
  · cases h
  · split at h <;> cases h
    rename_i hparse
    unfold parse at hparse
    split at hparse
    · cases hparse
    · split at hparse <;> cases hparse
      assumption

omit [GoYaml] in
theorem metadata_id_ne_of_validate {doc : Document} {order : List String}
    (h : doc.validate order = .ok ()) : doc.metadata.id ≠ "" := by
  unfold Document.validate at h
  obtain ⟨_, -, h⟩ := bind_eq_ok h
  obtain ⟨_, -, h⟩ := bind_eq_ok h
  obtain ⟨_, hid, -⟩ := bind_eq_ok h
  intro hempty
  rw [hempty] at hid
  cases hid

/-- An engine of validated documents, each under its id. -/
def Engine.Sound (e : Engine) : Prop :=
  ∀ id doc, e.policies.lookup id = some doc →
    doc.metadata.id = id ∧ ∃ d : ValidDocument, d.doc = doc

section Loaded

variable {dir : String} {es : List DirEntry} {e : Engine}

/-- The documents of a loaded engine are those of the files. -/
theorem loadEngine_policies (h : loadEngine dir (.ok es) = .ok e) {id : String} {doc : Document} :
    e.policies.lookup id = some doc ↔
      doc.metadata.id = id ∧ ∃ f ∈ es, isPolicyFile f = true ∧ loadFile f = .ok doc := by
  unfold loadEngine at h
  split at h <;> cases h
  rename_i docs hload
  obtain ⟨loaded, hfiles, -, -, hm⟩ := loadDir_ok_iff.mp hload
  have hmem : doc ∈ loaded ↔ ∃ f ∈ es, isPolicyFile f = true ∧ loadFile f = .ok doc := by
    have hiff : (.ok doc : Except String Document) ∈ loaded.map .ok ↔ doc ∈ loaded := by
      simp [List.mem_map]
    rw [← hiff, ← hfiles]
    simp only [List.mem_map, List.mem_filter, and_assoc]
  rw [hm id doc, hmem, and_comm]

theorem loadEngine_sound (h : loadEngine dir (.ok es) = .ok e) : e.Sound := by
  intro id doc hdoc
  obtain ⟨hid, f, -, -, hfile⟩ := (loadEngine_policies h).mp hdoc
  exact ⟨hid, ⟨doc, _, GoYaml.verdictOrder_enumerates f.path doc, loadFile_ok hfile⟩, rfl⟩

/-- **A submission is judged by the document it names**: the engine selects
a document exactly if a YAML file of the directory loads as it and has the
id in `policy_ref`, up to white space around the reference. -/
theorem loadEngine_lookup_iff (h : loadEngine dir (.ok es) = .ok e) {sub : Submission}
    {doc : Document} :
    e.lookup sub = .ok doc ↔
      ∃ ref, sub.policyRef = some ref ∧ doc.metadata.id = trimSpace ref ∧
        ∃ f ∈ es, isPolicyFile f = true ∧ loadFile f = .ok doc := by
  have hpolicies (id : String) := @loadEngine_policies _ _ _ _ _ h id doc
  unfold Engine.lookup
  cases hr : sub.policyRef with
  | none => simp
  | some ref =>
    simp only [Option.some.injEq, exists_eq_left', ← hpolicies]
    split
    case isTrue hblank =>
      -- no document has the empty id
      constructor
      · intro hd
        cases hd
      · intro hd
        obtain ⟨hid, f, -, -, hfile⟩ := (hpolicies _).mp hd
        exact absurd (hid.trans hblank) (metadata_id_ne_of_validate (loadFile_ok hfile))
    case isFalse =>
      cases hl : e.policies.lookup (trimSpace ref) with
      | none => simp
      | some d => simp

end Loaded

/-! ## What a loaded engine decides -/

omit [GoYaml] in
theorem Engine.Sound.valid {e : Engine} (h : e.Sound) {sub : Submission} {doc : Document}
    (hlookup : e.lookup sub = .ok doc) : ∃ d : ValidDocument, d.doc = doc := by
  unfold Engine.lookup at hlookup
  split at hlookup
  · cases hlookup
  · simp only at hlookup
    split at hlookup
    · cases hlookup
    · split at hlookup <;> cases hlookup
      rename_i hdoc
      exact (h _ _ hdoc).2

omit [GoYaml] in
theorem Tally.record_names (doc : Document) (sub : Submission) (env : EvalEnv)
    (inputs : List String) (t : Tally) :
    (t.record doc sub env inputs).submissionID = sub.id ∧
      (t.record doc sub env inputs).policy =
        { id := doc.metadata.id, version := doc.metadata.version } := by
  unfold Tally.record
  split <;> exact ⟨rfl, rfl⟩

omit [GoYaml] in
theorem evaluateDoc_valid (d : ValidDocument) (sub : Submission) (results : List ProviderResult)
    (env : EvalEnv) : ValidValue (evaluateDoc d.doc sub results env).decision := by
  rw [evaluateDoc_decision]
  exact foldl_escalate_valid (by simp [ValidValue]) fun _ hx => rawContribution_valid d hx

/-- The decision is about the submission, names the document that the
submission selects, a valid one, and is one of the four. -/
def Engine.Rules (e : Engine) (sub : Submission) (dec : PolicyDecision) : Prop :=
  ∃ d : ValidDocument, e.lookup sub = .ok d.doc ∧ dec.submissionID = sub.id ∧
    dec.policy = { id := d.doc.metadata.id, version := d.doc.metadata.version } ∧
    ValidValue dec.decision

omit [GoYaml] in
theorem Engine.Sound.evaluate {e : Engine} (h : e.Sound) {sub : Submission}
    {results : List ProviderResult} {env : EvalEnv} {dec : PolicyDecision}
    (heval : e.evaluate sub results env = .ok dec) : e.Rules sub dec := by
  obtain ⟨doc, hdoc, hdec⟩ := bind_eq_ok heval
  cases hdec
  obtain ⟨d, rfl⟩ := h.valid hdoc
  have hnames := Tally.record_names d.doc sub env (results.map (·.id))
    (results.foldl (rawResult d.doc.spec) .start)
  exact ⟨d, hdoc, hnames.1, hnames.2, evaluateDoc_valid d sub results env⟩

omit [GoYaml] in
theorem Engine.Sound.evaluateMerged {e : Engine} (h : e.Sound) {sub : Submission}
    {results : List ProviderResult} {merged : MergedResult} {env : EvalEnv} {dec : PolicyDecision}
    (heval : e.evaluateMerged sub results merged env = .ok dec) : e.Rules sub dec := by
  obtain ⟨doc, hdoc, hdec⟩ := bind_eq_ok heval
  cases hdec
  obtain ⟨d, rfl⟩ := h.valid hdoc
  exact ⟨d, hdoc, (Tally.record_names ..).1, (Tally.record_names ..).2,
    evaluateMergedDoc_valid d sub results merged env⟩

end Given

/-! ## A directory to evaluate on -/

/-- Keys in sorted order are an order of the keys. -/
theorem enumerates_sortedKeys {α : Type} (m : GoMap α) : m.Enumerates m.sortedKeys := by
  have hnodup : (m.sortedKeys : Multiset String).Nodup := (GoMap.sortedKeys_spec m).2
  refine (Multiset.Nodup.ext hnodup m.keys.nodup).mpr fun k => ?_
  rw [Multiset.mem_coe, GoMap.mem_sortedKeys, Finset.mem_val, Finmap.mem_keys]

/-- A document that defers as long as a provider fails. -/
def Document.plain (id : String) : Document where
  apiVersion := "scintx.policy/v1"
  kind := "Policy"
  metadata := { id := id, version := "1" }
  spec := { onError := "defer" }

/-- A file is the id of its document. -/
@[reducible] def GoYaml.plain : GoYaml where
  unmarshal b := .ok (.plain b)
  verdictOrder _ d := d.spec.verdicts.sortedKeys
  verdictOrder_enumerates _ d := enumerates_sortedKeys d.spec.verdicts

/-- Two documents, and two entries that are skipped. -/
def sampleEntries : List DirEntry :=
  [{ name := "README.md", path := "README.md", content := .ok "" },
    { name := "a.yaml", path := "a.yaml", content := .ok "default" },
    { name := "old.yaml", isDir := true, path := "old.yaml", content := .error "is a directory" },
    { name := "strict.YML", path := "strict.YML", content := .ok "strict" }]

/-- The second file is selected, with blanks around its id. -/
theorem loadEngine_lookup_iff_padded :
    ∃ e, @loadEngine GoStd.plain GoYaml.plain "policies" (.ok sampleEntries) = .ok e ∧
      @Engine.lookup GoStd.plain e
        { id := "sub_a", status := .running, policyRef := some " strict\n" } =
          .ok (.plain "strict") := by
  let _ := GoStd.plain
  let _ := GoYaml.plain
  have hok : (loadEngine "policies" (.ok sampleEntries)).isOk = true := by decide +kernel
  cases hload : loadEngine "policies" (.ok sampleEntries) with
  | error err =>
    rw [hload] at hok
    cases hok
  | ok e =>
    refine ⟨e, rfl, (loadEngine_lookup_iff hload).mpr ⟨_, rfl, ?_, sampleEntries[3], ?_⟩⟩
    · decide +kernel
    · exact ⟨List.getElem_mem _, by decide +kernel, rfl⟩

end Scintx.Policy
