/-
Scintx.Auth.RoundTrip — whether the gate accepts what the client signs.

The signer writes the key id with `%q`; the verifier splits the
parameters at every semicolon and strips quotes, and never undoes an
escape. So the key id comes back only if it has no semicolon and `%q`
leaves it as it is: `PlainKey`. The key list of the environment admits
more (`EnvKey`).

Everything else comes back: the time to the second, and the covered
components and their lines (`SignedAt.accepts`).
-/
import Scintx.Auth.Config
import Scintx.Auth.SignTheorems

namespace Scintx.Auth

open Scintx.Lib Scintx.Api

/-! ## Times -/

/-- `skew > MaxSkew || skew < -MaxSkew`, denied. -/
def WithinSkew (maxSkew : Duration) (now created : Time) : Prop :=
  subTime now created ≤ maxSkew ∧ wrapInt64 (-maxSkew) ≤ subTime now created

instance (maxSkew : Duration) (now created : Time) :
    Decidable (WithinSkew maxSkew now created) :=
  inferInstanceAs (Decidable (_ ∧ _))

section Given

variable [GoStd]

/-! ## Quoted key ids -/

/-- A character `%q` leaves as it is. -/
def Unescaped (c : Char) : Prop :=
  GoStd.isPrint c = true ∧ c ≠ '"' ∧ c ≠ '\\'

instance : DecidablePred Unescaped :=
  fun _ => inferInstanceAs (Decidable (_ ∧ _ ∧ _))

/-- A key id that comes back from the header. -/
def PlainKey (keyID : String) : Prop :=
  ∀ c ∈ keyID.toList, Unescaped c ∧ c ≠ ';'

theorem Unescaped.quoteChar {c : Char} (h : Unescaped c) : Lib.quoteChar c = [c] := by
  have hplain : ¬ (c = '"' ∨ c = '\\') := by
    rintro (rfl | rfl)
    · exact h.2.1 rfl
    · exact h.2.2 rfl
  unfold Lib.quoteChar
  rw [if_neg hplain, if_pos h.1]

theorem toList_quote (s : String) :
    (quote s).toList = '"' :: (s.toList.flatMap quoteChar ++ ['"']) := by
  rw [quote, String.toList_ofList, List.cons_append]

theorem flatMap_quoteChar {cs : List Char} (h : ∀ c ∈ cs, Unescaped c) :
    cs.flatMap quoteChar = cs := by
  induction cs with
  | nil => rfl
  | cons c cs ih =>
    rw [List.flatMap_cons, (h c (by simp)).quoteChar, ih fun x hx => h x (by simp [hx])]
    rfl

/-- Every escape has a backslash that the character has not. -/
theorem count_quoteChar {c : Char} (h : ¬ Unescaped c) :
    [c].count '\\' < (quoteChar c).count '\\' := by
  by_cases hback : c = '\\'
  · subst hback
    have hquote : quoteChar '\\' = ['\\', '\\'] := if_pos (.inr rfl)
    rw [hquote]
    decide
  have hnone : [c].count '\\' = 0 := by simp [hback]
  have hmem : '\\' ∈ quoteChar c := by
    unfold quoteChar
    split
    · simp
    · rename_i hplain
      have hprint : ¬ GoStd.isPrint c = true := by
        intro hprint
        exact h ⟨hprint, fun hq => hplain (.inl hq), hback⟩
      rw [if_neg hprint]
      split <;> first | decide | skip
      simp only [hexEscape]
      repeat' split
      all_goals simp
  rw [hnone]
  exact List.count_pos_iff.mpr hmem

theorem count_le_flatMap_quoteChar (cs : List Char) :
    cs.count '\\' ≤ (cs.flatMap quoteChar).count '\\' ∧
      (cs.count '\\' = (cs.flatMap quoteChar).count '\\' → ∀ c ∈ cs, Unescaped c) := by
  induction cs with
  | nil => simp
  | cons c cs ih =>
    have hcons : (c :: cs).count '\\' = [c].count '\\' + cs.count '\\' := by
      rw [← List.count_append]
      rfl
    rw [hcons, List.flatMap_cons, List.count_append]
    obtain ⟨hle, heq⟩ := ih
    by_cases hc : Unescaped c
    · rw [hc.quoteChar]
      refine ⟨by omega, fun h x hx => ?_⟩
      rcases List.mem_cons.mp hx with rfl | hx
      · exact hc
      · exact heq (by omega) x hx
    · have hlt := count_quoteChar hc
      exact ⟨by omega, fun h => by omega⟩

/-- The key id the verifier reads when there is no semicolon. -/
def readKey (keyID : String) : String :=
  String.ofList (trimChar '"' (quote keyID).toList)

theorem readKey_eq_self_iff (keyID : String) :
    readKey keyID = keyID ↔ ∀ c ∈ keyID.toList, Unescaped c := by
  constructor
  · intro h
    -- trimming quotes takes no backslash away
    have hcount := congrArg (fun s => s.toList.count '\\') h
    simp only [readKey, String.toList_ofList] at hcount
    rw [count_trimChar (by decide), toList_quote] at hcount
    have hmid : ('"' :: (keyID.toList.flatMap quoteChar ++ ['"'])).count '\\' =
        (keyID.toList.flatMap quoteChar).count '\\' := by
      simp
    rw [hmid] at hcount
    exact (count_le_flatMap_quoteChar keyID.toList).2 hcount.symm
  · intro h
    have hquote : '"' ∉ keyID.toList := fun hmem => (h _ hmem).2.1 rfl
    rw [readKey, toList_quote, flatMap_quoteChar h, trimChar_quoted hquote, String.ofList_toList]

theorem semicolon_not_mem_quote {keyID : String} (h : ';' ∉ keyID.toList) :
    ';' ∉ (quote keyID).toList := by
  rw [toList_quote]
  simp only [List.mem_cons, List.mem_append, List.mem_flatMap, List.not_mem_nil, or_false, not_or,
    not_exists, not_and]
  refine ⟨by decide, fun c hc hmem => ?_, by decide⟩
  rcases mem_quoteChar hmem with hescape | ⟨rfl, -⟩
  · exact absurd hescape (by decide)
  · exact h hc

/-! ## The parameters, part by part -/

omit [GoStd] in
theorem toList_createdPart (created : Int) :
    (createdPart created).toList = "created".toList ++ '=' :: (toString created).toList := by
  rw [createdPart, String.toList_append]
  rfl

theorem toList_keyidPart (keyID : String) :
    (keyidPart keyID).toList = "keyid".toList ++ '=' :: (quote keyID).toList := by
  rw [keyidPart, String.toList_append]
  rfl

theorem parseParam_created (sp : SignatureParams) {created : Int} (hlow : minInt64 ≤ created)
    (hhigh : created ≤ maxInt64) :
    parseParam sp (createdPart created).toList = .ok { sp with created := created } := by
  have hname : Trimmed "created".toList := trimmed_of_trimSpaceList_eq (by decide)
  have htrim : trimSpaceList ("created".toList ++ '=' :: (toString created).toList) =
      "created".toList ++ '=' :: (toString created).toList :=
    trimSpaceList_eq_self (hname.append (trimmed_toString created) (by decide)
      (toString_ne_nil created) ['='])
  have hquote : '"' ∉ (toString created).toList := by
    intro h
    rcases mem_toString h with hdigit | hminus
    · exact absurd hdigit (by decide)
    · exact absurd hminus (by decide)
  unfold parseParam
  rw [toList_createdPart, htrim, cutChar_append _ (by decide)]
  simp only [trimChar_of_not_mem hquote, String.ofList_toList, parseInt64_toString hlow hhigh]

theorem parseParam_keyid (sp : SignatureParams) (keyID : String) :
    parseParam sp (keyidPart keyID).toList = .ok { sp with keyID := readKey keyID } := by
  have hname : Trimmed "keyid".toList := trimmed_of_trimSpaceList_eq (by decide)
  have hvalue : Trimmed (quote keyID).toList := by
    rw [toList_quote]
    refine ⟨fun c hc => ?_, fun c hc => ?_⟩
    · obtain rfl : '"' = c := by simpa using hc
      decide
    · rw [← List.cons_append, List.getLast?_append_of_ne_nil _ (by simp)] at hc
      obtain rfl : '"' = c := by simpa using hc
      decide
  have hne : (quote keyID).toList ≠ [] := by
    rw [toList_quote]
    simp
  have htrim : trimSpaceList ("keyid".toList ++ '=' :: (quote keyID).toList) =
      "keyid".toList ++ '=' :: (quote keyID).toList :=
    trimSpaceList_eq_self (hname.append hvalue (by decide) hne ['='])
  unfold parseParam
  rw [toList_keyidPart, htrim, cutChar_append _ (by decide)]
  simp only [String.ofList_toList]
  rfl

theorem parseParam_alg (sp : SignatureParams) :
    parseParam sp algPart.toList = .ok { sp with alg := "hmac-sha256" } := by
  have hcut : cutChar '=' (trimSpaceList algPart.toList) =
      some ("alg".toList, "\"hmac-sha256\"".toList) := by decide
  have hvalue : trimChar '"' "\"hmac-sha256\"".toList = "hmac-sha256".toList := by decide
  unfold parseParam
  rw [hcut]
  simp only [hvalue, String.ofList_toList]

omit [GoStd] in
theorem semicolon_not_mem_param {name value : List Char} (hname : ';' ∉ name)
    (hvalue : ';' ∉ value) : ';' ∉ name ++ '=' :: value := by
  simp [hname, hvalue]

/-- Without a semicolon in the key id the header has three parameters. -/
theorem parseParams_signed (sp : SignatureParams) {created : Int} {keyID : String}
    (hlow : minInt64 ≤ created) (hhigh : created ≤ maxInt64) (hkey : ';' ∉ keyID.toList) :
    parseParams sp (splitChar ';' (paramsTail created keyID)) =
      .ok { sp with created := created, keyID := readKey keyID, alg := "hmac-sha256" } := by
  have hcreated : ';' ∉ (createdPart created).toList := by
    rw [toList_createdPart]
    refine semicolon_not_mem_param (by decide) fun h => ?_
    rcases mem_toString h with hdigit | hminus
    · exact absurd hdigit (by decide)
    · exact absurd hminus (by decide)
  have hkeyid : ';' ∉ (keyidPart keyID).toList := by
    rw [toList_keyidPart]
    exact semicolon_not_mem_param (by decide) (semicolon_not_mem_quote hkey)
  rw [paramsTail, splitChar_append _ hcreated, splitChar_append _ hkeyid,
    splitChar_of_not_mem (by decide)]
  simp only [parseParams, parseParam_created sp hlow hhigh, parseParam_keyid, parseParam_alg, bind,
    Except.bind]

/-- A part without a semicolon gives no key id with one. -/
theorem parseParam_semicolon {sp sp' : SignatureParams} {part : List Char} (hpart : ';' ∉ part)
    (hsp : ';' ∉ sp.keyID.toList) (h : parseParam sp part = .ok sp') :
    ';' ∉ sp'.keyID.toList := by
  unfold parseParam at h
  rcases cutChar_cases '=' (trimSpaceList part) with ⟨-, hcut⟩ | ⟨k, v, -, htext, hcut⟩
  · rw [hcut] at h
    cases h
    exact hsp
  · have hv : ';' ∉ trimChar '"' v := by
      intro hmem
      refine hpart (trimSpaceList_subset part ?_)
      rw [htext]
      simp [trimChar_subset _ _ hmem]
    rw [hcut] at h
    simp only at h
    split at h
    · split at h <;> cases h
      exact hsp
    · split at h <;> cases h
      exact hsp
    · cases h
      simpa using hv
    all_goals
      cases h
      exact hsp

theorem parseParams_semicolon {sp sp' : SignatureParams} {parts : List (List Char)}
    (hparts : ∀ part ∈ parts, ';' ∉ part) (hsp : ';' ∉ sp.keyID.toList)
    (h : parseParams sp parts = .ok sp') : ';' ∉ sp'.keyID.toList := by
  induction parts generalizing sp with
  | nil =>
    cases h
    exact hsp
  | cons part parts ih =>
    rw [parseParams] at h
    obtain ⟨sp₁, hsp₁, hrest⟩ := bind_eq_ok h
    exact ih (fun p hp => hparts p (by simp [hp]))
      (parseParam_semicolon (hparts part (by simp)) hsp hsp₁) hrest

/-! ## Acceptance -/

theorem signRequest_isOk {keyID : String} {secret : List UInt8} (hkey : keyID ≠ "")
    (hsecret : secret ≠ []) (req : Request) (body : List UInt8) (now clock : Time) :
    ∃ signed, signRequest req keyID secret body now clock = .ok signed :=
  ⟨_, if_neg (not_or.mpr ⟨hkey, hsecret⟩)⟩

/-- What the verifier makes of the parameters of a signed header. -/
theorem SignedAt.parse_plain {req signed : Request} {keyID : String} {secret body : List UInt8}
    {created : Int} (hs : SignedAt req signed keyID secret body created)
    (hlow : minInt64 ≤ created) (hhigh : created ≤ maxInt64) (hcreated : created ≠ 0)
    (hne : keyID ≠ "") (hkey : PlainKey keyID) :
    ∃ sp, parseSignatureInput (signed.get "Signature-Input") = .ok sp ∧ sp.keyID = keyID ∧
      sp.created = created ∧ sp.expires = 0 ∧ sp.alg = "hmac-sha256" := by
  obtain ⟨hclose, hnames⟩ := coveredNames_parse req body
  have hread : readKey keyID = keyID :=
    (readKey_eq_self_iff keyID).mpr fun c hc => (hkey c hc).1
  have hsemi : ';' ∉ keyID.toList := fun hmem => (hkey _ hmem).2 rfl
  have hcomp : (coveredBySigner req body).map (·.1) ≠ [] := by simp [coveredBySigner]
  rw [hs.input, parse_signed_params created keyID hclose hnames,
    parseParams_signed _ hlow hhigh hsemi, hread]
  exact ⟨_, if_neg (by simp [hne, hcreated, hcomp]), rfl, rfl, rfl, rfl⟩

/-- A header that comes back with the signer's key id had a plain one. -/
theorem SignedAt.plain_of_parse {req signed : Request} {keyID : String} {secret body : List UInt8}
    {created : Int} (hs : SignedAt req signed keyID secret body created)
    (hlow : minInt64 ≤ created) (hhigh : created ≤ maxInt64) {sp : SignatureParams}
    (hsp : parseSignatureInput (signed.get "Signature-Input") = .ok sp) (hid : sp.keyID = keyID) :
    PlainKey keyID := by
  obtain ⟨hclose, hnames⟩ := coveredNames_parse req body
  rw [hs.input, parse_signed_params created keyID hclose hnames] at hsp
  cases hparams : parseParams
      { components := (coveredBySigner req body).map (·.1)
        raw := paramsText ((coveredBySigner req body).map (·.1)) created keyID }
      (splitChar ';' (paramsTail created keyID)) with
  | error e =>
    rw [hparams] at hsp
    cases hsp
  | ok sp' =>
    rw [hparams] at hsp
    have heq : sp' = sp := by
      unfold completeParams at hsp
      simp only at hsp
      split at hsp
      · cases hsp
      · exact Except.ok.inj hsp
    subst heq
    have hsemi : ';' ∉ keyID.toList := by
      rw [← hid]
      exact parseParams_semicolon (fun part hpart => (mem_splitChar hpart).1) (by simp) hparams
    rw [parseParams_signed _ hlow hhigh hsemi] at hparams
    have hread : readKey keyID = keyID :=
      (congrArg SignatureParams.keyID (Except.ok.inj hparams)).trans hid
    intro c hc
    exact ⟨(readKey_eq_self_iff keyID).mp hread c hc, fun he => hsemi (he ▸ hc)⟩

/-- The checks of the parameters, for a key that is there. -/
theorem selectKey_iff {cfg : Config} {sp : SignatureParams} {secret : List UInt8}
    (halg : sp.alg = "hmac-sha256") (hkey : cfg.hmacKeys.lookup sp.keyID = some secret)
    (hexpires : sp.expires = 0) (now : Time) :
    selectKey cfg sp now = .ok secret ↔ WithinSkew cfg.maxSkew now (unixTime sp.created) := by
  have hfold : (!equalFold sp.alg "hmac-sha256") = false := by
    rw [halg, equalFold_refl]
    rfl
  unfold selectKey WithinSkew
  simp only [hfold, hkey, hexpires, lt_self_iff_false, false_and, if_false, Bool.false_eq_true]
  split
  · rename_i hskew
    simp only [reduceCtorEq, false_iff, not_and, not_le]
    exact fun hle => hskew.resolve_left (not_lt.mpr hle)
  · rename_i hskew
    simp only [not_or, not_lt] at hskew
    simpa only [true_iff] using hskew

/-- A request signed with a plain key id is accepted if and only if it
comes in time. -/
theorem SignedAt.accepted_iff {req signed : Request} {keyID : String} {secret body : List UInt8}
    {created : Int} (hs : SignedAt req signed keyID secret body created)
    (hlow : minInt64 ≤ created) (hhigh : created ≤ maxInt64) (hcreated : created ≠ 0)
    (hne : keyID ≠ "") (hplain : PlainKey keyID) {cfg : Config}
    (hkey : cfg.hmacKeys.lookup keyID = some secret) (now : Time) :
    verifyHMAC cfg signed body now = .ok () ↔ WithinSkew cfg.maxSkew now (unixTime created) := by
  obtain ⟨sp, hsp, rfl, rfl, hexpires, halg⟩ := hs.parse_plain hlow hhigh hcreated hne hplain
  rw [← selectKey_iff halg hkey hexpires]
  constructor
  · intro hok
    obtain ⟨sp', s, -, -, hsp', hselect, -⟩ := verifyHMAC_ok hok
    rw [hsp] at hsp'
    obtain rfl := Except.ok.inj hsp'
    rw [selectKey_ok hselect] at hkey
    obtain rfl := Option.some.inj hkey
    exact hselect
  · exact fun hselect => hs.accepts hsp hselect

/-- A gate with no other key accepts only what it reads the key id back
from. -/
theorem SignedAt.plain_of_accepted {req signed : Request} {keyID : String}
    {secret body : List UInt8} {created : Int} (hs : SignedAt req signed keyID secret body created)
    (hlow : minInt64 ≤ created) (hhigh : created ≤ maxInt64) {cfg : Config}
    (honly : ∀ id, id ≠ keyID → cfg.hmacKeys.lookup id = none) {now : Time}
    (hok : verifyHMAC cfg signed body now = .ok ()) : PlainKey keyID := by
  obtain ⟨sp, s, -, -, hsp, hselect, -⟩ := verifyHMAC_ok hok
  refine hs.plain_of_parse hlow hhigh hsp ?_
  by_contra hother
  have hlookup := selectKey_ok hselect
  rw [honly _ hother] at hlookup
  cases hlookup

/-- **When the gate accepts what the client signs.** Take a key the
environment admits, a signing time and a verification time. Every gate
that has the key, and as much patience, accepts every request signed with
it exactly if the key id is plain and the verification time is within
`MaxSkew` of the second the request was signed in. -/
theorem signed_accepted_iff {env₀ : AuthEnv} {cfg₀ : Config}
    (henv₀ : configFromEnv env₀ = .ok cfg₀) {keyID : String} {secret : List UInt8}
    (hkey₀ : cfg₀.hmacKeys.lookup keyID = some secret) (now clock verified : Time)
    (hcreated : unixSeconds (signingTime now clock) ≠ 0) :
    (∀ env cfg, configFromEnv env = .ok cfg → cfg.hmacKeys.lookup keyID = some secret →
        cfg.maxSkew = cfg₀.maxSkew → ∀ req body, ∃ signed,
          signRequest req keyID secret body now clock = .ok signed ∧
            verifyHMAC cfg signed body verified = .ok ()) ↔
      PlainKey keyID ∧
        WithinSkew cfg₀.maxSkew verified (unixTime (unixSeconds (signingTime now clock))) := by
  obtain ⟨text, hk, rfl⟩ := configFromEnv_key henv₀ hkey₀
  obtain ⟨hlow, hhigh⟩ := wrapInt64_bounds (signingTime now clock / 1000000000 - unixOrigin)
  change minInt64 ≤ unixSeconds (signingTime now clock) at hlow
  change unixSeconds (signingTime now clock) ≤ maxInt64 at hhigh
  have hsecret : bytesOf text ≠ [] := by
    intro h
    exact hk.secret_ne (bytesOf_injective (h.trans rfl))
  constructor
  · -- the key alone in a gate of its own
    intro h
    have hne : cfg₀.hmacKeys ≠ ∅ := by
      intro hempty
      rw [hempty, Finmap.lookup_empty] at hkey₀
      cases hkey₀
    obtain ⟨signed, hsign, hok⟩ :=
      h _ _ (hk.withKey_ok henv₀ hne) (Finmap.lookup_insert _) rfl plainRequest []
    have hs := signRequest_spec hsign
    have hplain : PlainKey keyID := by
      refine hs.plain_of_accepted hlow hhigh (fun id hid => ?_) hok
      rw [Finmap.lookup_insert_of_ne _ hid, Finmap.lookup_empty]
    have hskew := (hs.accepted_iff hlow hhigh hcreated hk.keyID_ne hplain
      (Finmap.lookup_insert _) verified).mp hok
    exact ⟨hplain, hskew⟩
  · rintro ⟨hplain, hskew⟩ env cfg henv hkey hmax req body
    obtain ⟨signed, hsign⟩ := signRequest_isOk hk.keyID_ne hsecret req body now clock
    refine ⟨signed, hsign, ((signRequest_spec hsign).accepted_iff hlow hhigh hcreated hk.keyID_ne
      hplain hkey verified).mpr ?_⟩
    rw [hmax]
    exact hskew

end Given

/-! ## On a concrete library -/

/-- The environment of a gate with one key. -/
def keyEnv (keyID secretText : String) : AuthEnv :=
  { auth := "hmac", maxSkew := "", hmacKeys := keyID ++ ":" ++ secretText, bearerTokens := "" }

def keyConfig (keyID secretText : String) : Config :=
  { profiles := [.hmac], hmacKeys := (∅ : GoMap _).insert keyID (bytesOf secretText)
    bearerTokens := [], maxSkew := 300000000000 }

theorem EnvKey.alone_ok {keyID secretText : String} (hk : EnvKey keyID secretText) :
    @configFromEnv GoStd.plain (keyEnv keyID secretText) = .ok (keyConfig keyID secretText) := by
  let _ := GoStd.plain
  have hauth : ¬ (toLower (trimSpace "hmac") = "" ∨ toLower (trimSpace "hmac") = "off" ∨
      toLower (trimSpace "hmac") = "none") := by decide
  have hprofiles : profilesFrom [] (splitChar ',' (toLower (trimSpace "hmac")).toList) =
      .ok [.hmac] := by decide
  have htokens : bearerTokensFrom (splitChar ',' "".toList) = [] := by decide
  have hkeys : (∅ : GoMap (List UInt8)).insert keyID (bytesOf secretText) ≠ ∅ := by
    intro h
    have := congrArg (Finmap.lookup keyID) h
    simp at this
  simp only [configFromEnv, keyEnv, if_neg hauth, hprofiles, maxSkewFrom, if_true,
    hk.readAll, htokens, requireCredentials, if_neg hkeys, bind, Except.bind, pure,
    Except.pure]
  rfl

/-- The second after 1970 began. -/
def firstSecond : Time := 62135596801000000000

theorem envKey_s {keyID : String} (hne : keyID ≠ "") (htrimmed : Trimmed keyID.toList)
    (hcolon : ':' ∉ keyID.toList) (hcomma : ',' ∉ keyID.toList) : EnvKey keyID "s" where
  keyID_ne := hne
  secret_ne := by decide
  keyID_trimmed := htrimmed
  secret_trimmed := trimmed_of_trimSpaceList_eq (by decide)
  noColon := hcolon
  noComma := hcomma
  secret_noComma := by decide

theorem envKey_k : EnvKey "k" "s" :=
  envKey_s (by decide) (trimmed_of_trimSpaceList_eq (by decide)) (by decide) (by decide)

/-- The key `k` is accepted five minutes later. -/
theorem signed_accepted_iff_plain :
    ∃ signed, @signRequest GoStd.plain plainRequest "k" (bytesOf "s") [7] firstSecond 0 =
        .ok signed ∧
      @verifyHMAC GoStd.plain (keyConfig "k" "s") signed [7] (firstSecond + 300000000000) =
        .ok () := by
  let _ := GoStd.plain
  have hlookup : (keyConfig "k" "s").hmacKeys.lookup "k" = some (bytesOf "s") :=
    Finmap.lookup_insert _
  refine (signed_accepted_iff envKey_k.alone_ok hlookup firstSecond 0
    (firstSecond + 300000000000) (by decide)).mpr ⟨?_, by decide⟩ _ _ envKey_k.alone_ok hlookup
      rfl plainRequest [7]
  exact forall_mem_of_all (by decide)

theorem envKey_semicolon : EnvKey "a;b" "s" :=
  envKey_s (by decide) (trimmed_of_trimSpaceList_eq (by decide)) (by decide) (by decide)

/-- The key `a;b` is admitted and signs, and is not known to the gate it
was configured for. -/
theorem semicolon_key_rejected :
    @configFromEnv GoStd.plain (keyEnv "a;b" "s") = .ok (keyConfig "a;b" "s") ∧
      (keyConfig "a;b" "s").hmacKeys.lookup "a;b" = some (bytesOf "s") ∧
      ∃ signed, @signRequest GoStd.plain plainRequest "a;b" (bytesOf "s") [] firstSecond 0 =
          .ok signed ∧
        @verifyHMAC GoStd.plain (keyConfig "a;b" "s") signed [] firstSecond =
          .error (.rejected "unknown keyid") :=
  ⟨envKey_semicolon.alone_ok, Finmap.lookup_insert _, _, rfl, by decide +kernel⟩

end Scintx.Auth
