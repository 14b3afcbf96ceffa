/-
Scintx.Auth.SignTheorems — what a signature binds.

The argument pairs the signer with the verifier. The header a signer
writes parses back to the components it covered (`parse_signed`) and to
the MAC it computed (`parseSignatureValue_signatureText`); both sides
build the base from the same list of component names, one line a name,
so equal MACs under an injective HMAC mean equal lines, and equal lines
mean equal method, path and digest header.

The BODY is bound only through the digest header, and the verifier
compares that header with the body only when the body is not empty; a
signer of an empty body covers no digest at all. Those are the two gaps.
-/
import Scintx.Auth.Sign

namespace Scintx.Auth

open Scintx.Lib Scintx.Api

/-! ## Scanning lemmas -/

theorem trimSpaceList_of_ends {a b : Char} (mid : List Char) (ha : isSpace a = false)
    (hb : isSpace b = false) : trimSpaceList (a :: (mid ++ [b])) = a :: (mid ++ [b]) := by
  simp [trimSpaceList, ha, hb]

theorem indexChar_cons_append {c first : Char} {list : List Char} (tail : List Char)
    (hfirst : first ≠ c) (h : c ∉ list) :
    indexChar c (first :: (list ++ c :: tail)) = some (list.length + 1) := by
  have hnone : list.findIdx? (fun x => decide (x = c)) = none := by
    rw [List.findIdx?_eq_none_iff]
    intro x hx
    have : x ≠ c := fun he => h (he ▸ hx)
    simpa using this
  simp [indexChar, List.findIdx?_cons, hfirst, List.findIdx?_append, hnone]

theorem slice_inner (first last : Char) (list tail : List Char) :
    slice (first :: (list ++ last :: tail)) 1 (list.length + 1) = some list := by
  simp [slice]

theorem slice_tail (first last : Char) (list tail : List Char) :
    slice (first :: (list ++ last :: tail)) (list.length + 1 + 1)
      (first :: (list ++ last :: tail)).length = some tail := by
  rw [slice, if_pos ⟨by simp, Nat.le_refl _⟩, List.take_length]
  simp

/-! ## The signature value -/

theorem parseSignatureValue_signatureText (mac : List UInt8) :
    parseSignatureValue (signatureText mac) = .ok (Base64.encode mac) := by
  have htext : (signatureText mac).toList =
      ['s', 'i', 'g', '1'] ++ '=' :: (':' :: (Base64.encode mac ++ [':'])) := by
    simp [signatureText]
  have htrim : trimSpaceList (signatureText mac).toList = (signatureText mac).toList := by
    have := trimSpaceList_of_ends (a := 's') (b := ':')
      (['i', 'g', '1', '=', ':'] ++ Base64.encode mac) (by decide) (by decide)
    simpa [htext] using this
  have hcut := cutChar_append (':' :: (Base64.encode mac ++ [':']))
    (show '=' ∉ ['s', 'i', 'g', '1'] by decide)
  have hrest : trimSpaceList (':' :: (Base64.encode mac ++ [':'])) =
      ':' :: (Base64.encode mac ++ [':']) := trimSpaceList_of_ends _ (by decide) (by decide)
  have hslice : slice (':' :: (Base64.encode mac ++ [':'])) 1
      ((':' :: (Base64.encode mac ++ [':'])).length - 1) = some (Base64.encode mac) := by
    simpa using slice_inner ':' ':' (Base64.encode mac) []
  unfold parseSignatureValue
  rw [htrim, htext, hcut]
  simp only [hrest, hslice]
  simp [List.isSuffixOf]

/-! ## Lines of components -/

/-- The value the verifier reads for a component. -/
def verifierValue (req : Request) (c : String) : String :=
  if c = "@method" then req.method.text
  else if c = "@path" then req.escapedPath.text
  else if c = "content-digest" then req.get "Content-Digest"
  else req.get "Content-Type"

theorem oneLine_get (req : Request) (name : String) : OneLine (req.get name) := by
  unfold Request.get
  cases req.header.lookup name with
  | none => decide
  | some v => exact v.oneLine

theorem oneLine_verifierValue (req : Request) (c : String) : OneLine (verifierValue req c) := by
  unfold verifierValue
  split
  · exact req.method.oneLine
  · split
    · exact req.escapedPath.oneLine
    · split <;> exact oneLine_get _ _

theorem oneLine_componentLine {c : String × String} (hn : OneLine c.1) (hv : OneLine c.2) :
    OneLine (componentLine c) :=
  oneLine_append (oneLine_append (oneLine_append (by decide) hn) (by decide)) hv

theorem componentLine_injective {n v w : String} (h : componentLine (n, v) = componentLine (n, w)) :
    v = w := by
  have := congrArg String.toList h
  simp only [componentLine, String.toList_append, List.append_cancel_left_eq] at this
  exact String.toList_inj.mp this

section Given

variable [GoStd]

/-! ## The signature parameters -/

theorem parseParam_keeps {sp sp' : SignatureParams} {part : List Char}
    (h : parseParam sp part = .ok sp') : sp'.components = sp.components ∧ sp'.raw = sp.raw := by
  unfold parseParam at h
  split at h
  · cases h
    exact ⟨rfl, rfl⟩
  · rename_i k v _
    simp only at h
    split at h
    · split at h <;> cases h
      exact ⟨rfl, rfl⟩
    · split at h <;> cases h
      exact ⟨rfl, rfl⟩
    all_goals
      cases h
      exact ⟨rfl, rfl⟩

theorem parseParams_keeps {sp sp' : SignatureParams} {parts : List (List Char)}
    (h : parseParams sp parts = .ok sp') :
    sp'.components = sp.components ∧ sp'.raw = sp.raw := by
  induction parts generalizing sp with
  | nil =>
    cases h
    exact ⟨rfl, rfl⟩
  | cons part parts ih =>
    unfold parseParams at h
    cases hp : parseParam sp part with
    | error e =>
      rw [hp] at h
      cases h
    | ok sp₁ =>
      rw [hp] at h
      obtain ⟨hc, hr⟩ := parseParam_keeps hp
      obtain ⟨hc', hr'⟩ := ih h
      exact ⟨hc'.trans hc, hr'.trans hr⟩

/-- The quoted names of a component list, as they stand in the header. -/
def quotedNames (names : List String) : List Char :=
  (join (names.map fun n => "\"" ++ n ++ "\"") " ").toList

/-! The parameters a signer writes, one by one. -/

omit [GoStd] in
def createdPart (created : Int) : String := "created=" ++ toString created

def keyidPart (keyID : String) : String := "keyid=" ++ quote keyID

omit [GoStd] in
def algPart : String := "alg=\"hmac-sha256\""

def paramsTail (created : Int) (keyID : String) : List Char :=
  (createdPart created).toList ++ ';' :: ((keyidPart keyID).toList ++ ';' :: algPart.toList)

theorem toList_paramsText (names : List String) (created : Int) (keyID : String) :
    (paramsText names created keyID).toList =
      '(' :: (quotedNames names ++ ')' :: (';' :: paramsTail created keyID)) := by
  have hcreated : ");created=" = ")" ++ ";" ++ "created=" := by decide
  have hkeyid : ";keyid=" = ";" ++ "keyid=" := by decide
  have halg : ";alg=\"hmac-sha256\"" = ";" ++ algPart := by decide
  rw [paramsText, hcreated, hkeyid, halg]
  simp only [String.toList_append, List.append_assoc, paramsTail, createdPart, keyidPart]
  rfl

theorem paramsTail_ends (created : Int) (keyID : String) :
    ∃ mid, ';' :: paramsTail created keyID = mid ++ ['"'] := by
  have halg : algPart = "alg=\"hmac-sha256" ++ "\"" := by decide
  refine ⟨';' :: ((createdPart created).toList ++ ';' :: ((keyidPart keyID).toList ++
    ';' :: "alg=\"hmac-sha256".toList)), ?_⟩
  rw [paramsTail, halg, String.toList_append]
  simp only [List.cons_append, List.append_assoc]
  rfl

omit [GoStd] in
/-- What `parseSignatureInput` does with the parameters it parsed. -/
def completeParams : Except String SignatureParams → Except Failure SignatureParams
  | .error e => .error (.rejected e)
  | .ok sp =>
    if sp.keyID = "" ∨ sp.created = 0 ∨ sp.components = [] then
      .error (.rejected "incomplete signature params")
    else .ok sp

/-- A signed header is parsed up to its parameters. -/
theorem parse_signed_params {names : List String} (created : Int) (keyID : String)
    (hclose : ')' ∉ quotedNames names) (hnames : componentsOf (quotedNames names) = names) :
    parseSignatureInput ("sig1=" ++ paramsText names created keyID) =
      completeParams (parseParams { components := names, raw := paramsText names created keyID }
        (splitChar ';' (paramsTail created keyID))) := by
  have hparams := toList_paramsText names created keyID
  obtain ⟨mid, hmid⟩ := paramsTail_ends created keyID
  have htext : ("sig1=" ++ paramsText names created keyID).toList =
      ['s', 'i', 'g', '1'] ++ '=' :: (paramsText names created keyID).toList := by
    simp
  have htrim : trimSpaceList ("sig1=" ++ paramsText names created keyID).toList =
      ("sig1=" ++ paramsText names created keyID).toList := by
    have := trimSpaceList_of_ends (a := 's') (b := '"')
      (['i', 'g', '1', '=', '('] ++ quotedNames names ++ ')' :: mid) (by decide) (by decide)
    simpa [htext, hparams, hmid] using this
  have hrest : trimSpaceList (paramsText names created keyID).toList =
      (paramsText names created keyID).toList := by
    have := trimSpaceList_of_ends (a := '(') (b := '"') (quotedNames names ++ ')' :: mid)
      (by decide) (by decide)
    simpa [hparams, hmid] using this
  have hcut := cutChar_append (paramsText names created keyID).toList
    (show '=' ∉ ['s', 'i', 'g', '1'] by decide)
  have hindex := indexChar_cons_append (';' :: paramsTail created keyID)
    (show '(' ≠ ')' by decide) hclose
  unfold parseSignatureInput
  rw [htrim, htext, hcut]
  simp only [hrest]
  rw [hparams]
  simp only [hindex, slice_inner, slice_tail]
  rw [← hparams, String.ofList_toList, hnames]
  have hopen : (! ['('].isPrefixOf (paramsText names created keyID).toList) = false := by
    rw [hparams]
    rfl
  have hsemi : [';'].isPrefixOf (';' :: paramsTail created keyID) = true := rfl
  rw [hopen, if_pos hsemi, List.drop_one, List.tail_cons]
  cases parseParams { components := names, raw := paramsText names created keyID }
    (splitChar ';' (paramsTail created keyID)) <;> rfl

/-- A signed header parses to the components it names, or is rejected. -/
theorem parse_signed {names : List String} (created : Int) (keyID : String)
    (hclose : ')' ∉ quotedNames names) (hnames : componentsOf (quotedNames names) = names) :
    (∃ text, parseSignatureInput ("sig1=" ++ paramsText names created keyID) =
        .error (.rejected text)) ∨
      ∃ sp, parseSignatureInput ("sig1=" ++ paramsText names created keyID) = .ok sp ∧
        sp.components = names ∧ sp.raw = paramsText names created keyID := by
  rw [parse_signed_params created keyID hclose hnames]
  cases hsp : parseParams { components := names, raw := paramsText names created keyID }
      (splitChar ';' (paramsTail created keyID)) with
  | error e => exact .inl ⟨e, rfl⟩
  | ok sp =>
    obtain ⟨hc, hr⟩ := parseParams_keeps hsp
    unfold completeParams
    simp only
    split
    · exact .inl ⟨_, rfl⟩
    · exact .inr ⟨sp, rfl, hc, hr⟩

/-- The component names of a signer survive the header. -/
theorem coveredNames_parse (req : Request) (body : List UInt8) :
    ')' ∉ quotedNames ((coveredBySigner req body).map (·.1)) ∧
      componentsOf (quotedNames ((coveredBySigner req body).map (·.1))) =
        (coveredBySigner req body).map (·.1) := by
  unfold coveredBySigner
  by_cases hb : body = [] <;> by_cases hc : req.get "Content-Type" = "" <;>
    simp only [hb, hc, ne_eq, not_true_eq_false, not_false_eq_true, if_true, if_false,
      List.append_nil, List.map_cons, List.map_nil, List.cons_append, List.nil_append] <;>
    decide +kernel

/-! ## The lines of the verifier -/

theorem verifierLine_ok {req : Request} {body : List UInt8} {c line : String}
    (h : verifierLine req body c = .ok line) :
    line = componentLine (c, verifierValue req c) ∧
      (c = "content-digest" → body ≠ [] → req.get "Content-Digest" = contentDigestSHA256 body) := by
  unfold verifierLine at h
  split at h
  · cases h
    exact ⟨rfl, fun hc => absurd hc (by decide)⟩
  · cases h
    exact ⟨rfl, fun hc => absurd hc (by decide)⟩
  · simp only at h
    split at h
    · cases h
    · split at h
      · cases h
      · rename_i hmatch
        cases h
        refine ⟨rfl, fun _ hb => ?_⟩
        by_contra hne
        exact hmatch ⟨hb, hne⟩
  · simp only at h
    split at h
    · cases h
    · cases h
      exact ⟨rfl, fun hc => absurd hc (by decide)⟩
  · cases h

theorem verifierLines_ok {req : Request} {body : List UInt8} {cs lines : List String}
    (h : verifierLines req body cs = .ok lines) :
    lines = cs.map (fun c => componentLine (c, verifierValue req c)) ∧
      ("content-digest" ∈ cs → body ≠ [] →
        req.get "Content-Digest" = contentDigestSHA256 body) := by
  induction cs generalizing lines with
  | nil =>
    cases h
    exact ⟨rfl, by simp⟩
  | cons c cs ih =>
    unfold verifierLines at h
    cases hline : verifierLine req body c with
    | error e =>
      rw [hline] at h
      cases h
    | ok line =>
      cases hlines : verifierLines req body cs with
      | error e =>
        rw [hline, hlines] at h
        cases h
      | ok rest =>
        rw [hline, hlines] at h
        cases h
        obtain ⟨rfl, hdigest⟩ := verifierLine_ok hline
        obtain ⟨rfl, hdigest'⟩ := ih hlines
        refine ⟨rfl, fun hmem hb => ?_⟩
        rcases List.mem_cons.mp hmem with hc | hmem
        · exact hdigest hc.symm hb
        · exact hdigest' hmem hb

theorem verifierLines_rejected {req : Request} {body : List UInt8} {cs : List String}
    {f : Failure} (h : verifierLines req body cs = .error f) : ∃ text, f = .rejected text := by
  have hline : ∀ {c f}, verifierLine req body c = .error f → ∃ text, f = .rejected text := by
    intro c f h
    unfold verifierLine at h
    split at h
    · cases h
    · cases h
    · simp only at h
      repeat' split at h
      all_goals cases h
      all_goals exact ⟨_, rfl⟩
    · simp only at h
      split at h <;> cases h
      exact ⟨_, rfl⟩
    · cases h
      exact ⟨_, rfl⟩
  induction cs with
  | nil => cases h
  | cons c cs ih =>
    unfold verifierLines at h
    cases hc : verifierLine req body c with
    | error e =>
      rw [hc] at h
      cases h
      exact hline hc
    | ok line =>
      cases hcs : verifierLines req body cs with
      | error e =>
        rw [hc, hcs] at h
        cases h
        exact ih hcs
      | ok rest =>
        rw [hc, hcs] at h
        cases h

/-! ## What signing writes -/

omit [GoStd] in
theorem Request.get_set_self (r : Request) (name : String) (v : Line) :
    (r.set name v).get name = v.text := by
  simp [Request.get, Request.set]

omit [GoStd] in
theorem Request.get_set_ne (r : Request) {name name' : String} (v : Line) (h : name' ≠ name) :
    (r.set name v).get name' = r.get name' := by
  simp [Request.get, Request.set, Finmap.lookup_insert_of_ne _ h]

/-- The headers of a request signed at `created`. -/
structure SignedAt (req signed : Request) (keyID : String) (secret body : List UInt8)
    (created : Int) : Prop where
  method : signed.method = req.method
  escapedPath : signed.escapedPath = req.escapedPath
  input : signed.get "Signature-Input" =
    "sig1=" ++ paramsText ((coveredBySigner req body).map (·.1)) created keyID
  signature : signed.get "Signature" =
    signatureText (GoStd.hmacSHA256 secret (bytesOf (signedBase req keyID body created)))
  contentType : signed.get "Content-Type" = req.get "Content-Type"
  contentDigest : body ≠ [] → signed.get "Content-Digest" = contentDigestSHA256 body

/-- The time a request is signed at: the clock's when none is given. -/
def signingTime (now clock : Time) : Time :=
  if now = 0 then clock else now

theorem signRequest_spec {req signed : Request} {keyID : String} {secret body : List UInt8}
    {now clock : Time} (h : signRequest req keyID secret body now clock = .ok signed) :
    SignedAt req signed keyID secret body (unixSeconds (signingTime now clock)) := by
  unfold signRequest at h
  split at h
  · cases h
  · cases h
    refine ⟨?_, ?_, ?_, Request.get_set_self _ _ _, ?_, ?_⟩
    · split <;> rfl
    · split <;> rfl
    · rw [Request.get_set_ne _ _ (by decide), Request.get_set_self]
      rfl
    · rw [Request.get_set_ne _ _ (by decide), Request.get_set_ne _ _ (by decide)]
      split
      · rw [Request.get_set_ne _ _ (by decide)]
      · rfl
    · intro hb
      rw [Request.get_set_ne _ _ (by decide), Request.get_set_ne _ _ (by decide), if_pos hb,
        Request.get_set_self]

/-! ## What verification reads -/

/-- An accepted request passed every stage. -/
theorem verifyHMAC_ok {cfg : Config} {req : Request} {body : List UInt8} {now : Time}
    (h : verifyHMAC cfg req body now = .ok ()) :
    ∃ sp secret lines sent,
      parseSignatureInput (req.get "Signature-Input") = .ok sp ∧
      selectKey cfg sp now = .ok secret ∧
      verifierLines req body sp.components = .ok lines ∧
      parseSignatureValue (req.get "Signature") = .ok sent ∧
      checkMac secret (baseText lines sp.raw) sent = .ok () := by
  unfold verifyHMAC buildSignatureBase at h
  simp only at h
  split at h
  · cases h
  cases hsp : parseSignatureInput (req.get "Signature-Input") with
  | error e => simp [hsp, bind, Except.bind] at h
  | ok sp =>
  cases hkey : selectKey cfg sp now with
  | error e => simp [hsp, hkey, bind, Except.bind] at h
  | ok secret =>
  cases hlines : verifierLines req body sp.components with
  | error e => simp [hsp, hkey, hlines, bind, Except.bind] at h
  | ok lines =>
  cases hsent : parseSignatureValue (req.get "Signature") with
  | error e => simp [hsp, hkey, hlines, hsent, bind, Except.bind, pure, Except.pure] at h
  | ok sent =>
    refine ⟨sp, secret, lines, sent, rfl, hkey, hlines, rfl, ?_⟩
    simpa [hsp, hkey, hlines, hsent, bind, Except.bind, pure, Except.pure] using h

theorem selectKey_ok {cfg : Config} {sp : SignatureParams} {now : Time} {secret : List UInt8}
    (h : selectKey cfg sp now = .ok secret) : cfg.hmacKeys.lookup sp.keyID = some secret := by
  unfold selectKey at h
  split at h
  · cases h
  · cases hl : cfg.hmacKeys.lookup sp.keyID with
    | none => simp [hl] at h
    | some s =>
      simp only [hl] at h
      split at h
      · cases h
      · split at h <;> cases h
        rfl

theorem checkMac_ok {secret : List UInt8} {base : String} {mac : List UInt8}
    (h : checkMac secret base (Base64.encode mac) = .ok ()) :
    mac = GoStd.hmacSHA256 secret (bytesOf base) := by
  unfold checkMac at h
  rw [Base64.decode_encode] at h
  by_contra hne
  simp [hne] at h

theorem selectKey_ne_panic (cfg : Config) (sp : SignatureParams) (now : Time) :
    selectKey cfg sp now ≠ .error .panic := by
  simp only [selectKey]
  repeat' split
  all_goals simp

theorem checkMac_ne_panic (secret : List UInt8) (base : String) (sent : List Char) :
    checkMac secret base sent ≠ .error .panic := by
  unfold checkMac
  repeat' split
  all_goals simp

/-- If neither header makes the scan panic, not accepting is rejecting. -/
theorem verifyHMAC_rejected {cfg : Config} {req : Request} {body : List UInt8} {now : Time}
    (hinput : parseSignatureInput (req.get "Signature-Input") ≠ .error .panic)
    (hvalue : parseSignatureValue (req.get "Signature") ≠ .error .panic)
    (h : verifyHMAC cfg req body now ≠ .ok ()) :
    ∃ text, verifyHMAC cfg req body now = .error (.rejected text) := by
  suffices hpanic : verifyHMAC cfg req body now ≠ .error .panic by
    cases hv : verifyHMAC cfg req body now with
    | ok u => exact absurd hv h
    | error f =>
      cases f with
      | rejected text => exact ⟨text, rfl⟩
      | panic => exact absurd hv hpanic
  intro hp
  unfold verifyHMAC buildSignatureBase at hp
  simp only at hp
  split at hp
  · cases hp
  cases hsp : parseSignatureInput (req.get "Signature-Input") with
  | error e =>
    simp only [hsp, bind, Except.bind, Except.error.injEq] at hp
    exact hinput (hp ▸ hsp)
  | ok sp =>
  cases hkey : selectKey cfg sp now with
  | error e =>
    simp only [hsp, hkey, bind, Except.bind, Except.error.injEq] at hp
    exact selectKey_ne_panic cfg sp now (hp ▸ hkey)
  | ok secret =>
  cases hlines : verifierLines req body sp.components with
  | error e =>
    simp only [hsp, hkey, hlines, bind, Except.bind, Except.error.injEq] at hp
    obtain ⟨text, rfl⟩ := verifierLines_rejected hlines
    cases hp
  | ok lines =>
  cases hsent : parseSignatureValue (req.get "Signature") with
  | error e =>
    simp only [hsp, hkey, hlines, hsent, bind, Except.bind, pure, Except.pure,
      Except.error.injEq] at hp
    exact hvalue (hp ▸ hsent)
  | ok sent =>
    simp only [hsp, hkey, hlines, hsent, bind, Except.bind, pure, Except.pure] at hp
    exact checkMac_ne_panic _ _ _ hp

/-! ## What the body check depends on -/

/-- Without a body the digest header is not compared. -/
theorem verifierLines_empty_body {req : Request} {body : List UInt8} {cs lines : List String}
    (h : verifierLines req body cs = .ok lines) : verifierLines req [] cs = .ok lines := by
  have hline : ∀ {c line}, verifierLine req body c = .ok line →
      verifierLine req [] c = .ok line := by
    intro c line h
    unfold verifierLine at h ⊢
    split at h
    · exact h
    · exact h
    · simp only at h ⊢
      split at h
      · cases h
      · rename_i hd
        split at h
        · cases h
        · simpa [hd] using h
    · exact h
    · exact h
  induction cs generalizing lines with
  | nil => exact h
  | cons c cs ih =>
    unfold verifierLines at h ⊢
    cases hc : verifierLine req body c with
    | error e =>
      rw [hc] at h
      cases h
    | ok line =>
      cases hcs : verifierLines req body cs with
      | error e =>
        rw [hc, hcs] at h
        cases h
      | ok rest =>
        rw [hc, hcs] at h
        rw [hline hc, ih hcs]
        exact h

/-- Without a covered digest the body is not looked at. -/
theorem verifierLines_uncovered_body {req : Request} {cs : List String}
    (hcs : "content-digest" ∉ cs) (body body' : List UInt8) :
    verifierLines req body cs = verifierLines req body' cs := by
  induction cs with
  | nil => rfl
  | cons c cs ih =>
    simp only [List.mem_cons, not_or] at hcs
    have hline : verifierLine req body c = verifierLine req body' c := by
      unfold verifierLine
      split
      · rfl
      · rfl
      · exact absurd rfl hcs.1
      · rfl
      · rfl
    unfold verifierLines
    rw [hline, ih hcs.2]

/-! ## What a signature binds -/

section Binding

variable {cfg : Config} {req signed : Request} {keyID : String} {secret body : List UInt8}
  {created : Int}

theorem SignedAt.parse (hs : SignedAt req signed keyID secret body created) {req' : Request}
    (hin : req'.get "Signature-Input" = signed.get "Signature-Input") :
    (∃ text, parseSignatureInput (req'.get "Signature-Input") = .error (.rejected text)) ∨
      ∃ sp, parseSignatureInput (req'.get "Signature-Input") = .ok sp ∧
        sp.components = (coveredBySigner req body).map (·.1) ∧
        sp.raw = paramsText ((coveredBySigner req body).map (·.1)) created keyID := by
  rw [hin, hs.input]
  obtain ⟨hclose, hnames⟩ := coveredNames_parse req body
  exact parse_signed created keyID hclose hnames

theorem oneLine_coveredLines (req : Request) (body : List UInt8) :
    ∀ line ∈ (coveredBySigner req body).map componentLine, OneLine line := by
  intro line hline
  obtain ⟨c, hc, rfl⟩ := List.mem_map.mp hline
  refine oneLine_componentLine
    (oneLine_coveredNames req body c.1 (List.mem_map.mpr ⟨c, hc, rfl⟩)) ?_
  unfold coveredBySigner at hc
  simp only [List.mem_append, List.mem_cons, List.not_mem_nil, or_false] at hc
  rcases hc with ((rfl | rfl) | hc) | hc
  · exact req.method.oneLine
  · exact req.escapedPath.oneLine
  · split at hc
    · rw [List.mem_singleton.mp hc]
      exact oneLine_contentDigest body
    · simp at hc
  · split at hc
    · rw [List.mem_singleton.mp hc]
      exact oneLine_get _ _
    · simp at hc

/-- Equal bases have equal component values. -/
theorem values_eq_of_base_eq {req' : Request}
    (h : baseText ((coveredBySigner req body).map componentLine)
        (paramsText ((coveredBySigner req body).map (·.1)) created keyID) =
      baseText (((coveredBySigner req body).map (·.1)).map
          fun c => componentLine (c, verifierValue req' c))
        (paramsText ((coveredBySigner req body).map (·.1)) created keyID)) :
    ∀ c ∈ coveredBySigner req body, c.2 = verifierValue req' c.1 := by
  have hlines := join_lines_injective (oneLine_coveredLines req body) ?_ (by simp) h
  · rw [List.map_map] at hlines
    intro c hc
    exact componentLine_injective (List.map_inj_left.mp hlines c hc)
  · intro line hline
    obtain ⟨n, hn, rfl⟩ := List.mem_map.mp hline
    exact oneLine_componentLine (oneLine_coveredNames req body n hn) (oneLine_verifierValue _ _)

/-- **An accepted request agrees with the signed one** in method, path
and, when both have one, body. -/
theorem SignedAt.accepted (hs : SignedAt req signed keyID secret body created)
    (hmac : Function.Injective (GoStd.hmacSHA256 secret))
    (hsha : Function.Injective GoStd.sha256) {req' : Request} {body' : List UInt8} {now : Time}
    (hin : req'.get "Signature-Input" = signed.get "Signature-Input")
    (hsig : req'.get "Signature" = signed.get "Signature")
    (hkey : ∀ sp, parseSignatureInput (signed.get "Signature-Input") = .ok sp →
      ∀ s, cfg.hmacKeys.lookup sp.keyID = some s → s = secret)
    (hok : verifyHMAC cfg req' body' now = .ok ()) :
    req'.method.text = req.method.text ∧ req'.escapedPath.text = req.escapedPath.text ∧
      (body ≠ [] → body' ≠ [] → body' = body) := by
  obtain ⟨sp, s, lines, sent, hsp, hselect, hlines, hsent, hmacOk⟩ := verifyHMAC_ok hok
  -- the verifier picks the signing key
  have hs' := hkey sp (hin ▸ hsp) s (selectKey_ok hselect)
  subst hs'
  -- and compares with the signer's MAC
  rw [hsig, hs.signature, parseSignatureValue_signatureText] at hsent
  cases hsent
  have hbase := bytesOf_injective (hmac (checkMac_ok hmacOk))
  rcases hs.parse hin with ⟨text, hbad⟩ | ⟨sp', hsp', hcomp, hraw⟩
  · rw [hsp] at hbad
    cases hbad
  rw [hsp] at hsp'
  cases hsp'
  obtain ⟨rfl, hdigest⟩ := verifierLines_ok hlines
  rw [hraw, hcomp] at hbase
  have hvalues := values_eq_of_base_eq hbase
  refine ⟨?_, ?_, ?_⟩
  · exact (hvalues ("@method", req.method.text) (by simp [coveredBySigner])).symm
  · exact (hvalues ("@path", req.escapedPath.text) (by simp [coveredBySigner])).symm
  · intro hb hb'
    have hcov : ("content-digest", contentDigestSHA256 body) ∈ coveredBySigner req body := by
      simp [coveredBySigner, hb]
    have h1 : contentDigestSHA256 body = req'.get "Content-Digest" := hvalues _ hcov
    have h2 := hdigest (hcomp ▸ List.mem_map.mpr ⟨_, hcov, rfl⟩) hb'
    have h3 := congrArg String.toList (h1.trans h2)
    simp only [contentDigestSHA256, String.toList_append, String.toList_ofList,
      List.append_cancel_right_eq, List.append_cancel_left_eq] at h3
    exact hsha (Base64.encode_injective h3.symm)

/-- The verifier rebuilds the signer's lines. -/
theorem SignedAt.rebuilds (hs : SignedAt req signed keyID secret body created) :
    verifierLines signed body ((coveredBySigner req body).map (·.1)) =
      .ok ((coveredBySigner req body).map componentLine) := by
  have hm : signed.method.text = req.method.text := by rw [hs.method]
  have hp : signed.escapedPath.text = req.escapedPath.text := by rw [hs.escapedPath]
  have hct := hs.contentType
  have hne : contentDigestSHA256 body ≠ "" := by
    intro h
    have := congrArg String.toList h
    simp [contentDigestSHA256] at this
  by_cases hb : body = [] <;> by_cases hc : req.get "Content-Type" = ""
  · simp [coveredBySigner, hb, hc, verifierLines, verifierLine, hm, hp, bind, Except.bind,
      pure, Except.pure]
  · simp [coveredBySigner, hb, hc, verifierLines, verifierLine, hm, hp, hct, bind,
      Except.bind, pure, Except.pure]
  · simp [coveredBySigner, hb, hc, verifierLines, verifierLine, hm, hp,
      hs.contentDigest hb, hne, bind, Except.bind, pure, Except.pure]
  · simp [coveredBySigner, hb, hc, verifierLines, verifierLine, hm, hp, hct,
      hs.contentDigest hb, hne, bind, Except.bind, pure, Except.pure]

/-- A signed request is accepted as soon as its header parses and selects
the signing key. -/
theorem SignedAt.accepts (hs : SignedAt req signed keyID secret body created)
    {sp : SignatureParams} {now : Time}
    (hsp : parseSignatureInput (signed.get "Signature-Input") = .ok sp)
    (hselect : selectKey cfg sp now = .ok secret) : verifyHMAC cfg signed body now = .ok () := by
  rcases hs.parse rfl with ⟨text, hbad⟩ | ⟨sp', hsp', hcomp, hraw⟩
  · rw [hsp] at hbad
    cases hbad
  rw [hsp] at hsp'
  cases hsp'
  have hpresent : ¬ (signed.get "Signature-Input" = "" ∨ signed.get "Signature" = "") := by
    rw [hs.input, hs.signature]
    rintro (h | h) <;> simpa [signatureText] using congrArg String.toList h
  have hvalue : parseSignatureValue (signed.get "Signature") = .ok (Base64.encode
      (GoStd.hmacSHA256 secret (bytesOf (signedBase req keyID body created)))) := by
    rw [hs.signature, parseSignatureValue_signatureText]
  unfold verifyHMAC buildSignatureBase
  rw [if_neg hpresent, hsp]
  simp only [hselect, hcomp, hraw, hs.rebuilds, hvalue, bind, Except.bind, pure, Except.pure]
  simp [checkMac, Base64.decode_encode, signedBase]

/-- A body replaced by none, or put where there was none, is not noticed. -/
theorem SignedAt.body_unbound (hs : SignedAt req signed keyID secret body created)
    {body' : List UInt8} {now : Time} (hb : body = [] ∨ body' = [])
    (hok : verifyHMAC cfg signed body now = .ok ()) :
    verifyHMAC cfg signed body' now = .ok () := by
  obtain ⟨sp, s, lines, sent, hsp, hselect, hlines, hsent, hmacOk⟩ := verifyHMAC_ok hok
  have hlines' : verifierLines signed body' sp.components = .ok lines := by
    rcases hb with rfl | rfl
    · rcases hs.parse rfl with ⟨text, hbad⟩ | ⟨sp', hsp', hcomp, -⟩
      · rw [hsp] at hbad
        cases hbad
      · rw [hsp] at hsp'
        cases hsp'
        have hnot : "content-digest" ∉ sp.components := by
          rw [hcomp, coveredBySigner]
          by_cases hc : req.get "Content-Type" = "" <;> simp [hc]
        rw [verifierLines_uncovered_body hnot body' [], hlines]
    · exact verifierLines_empty_body hlines
  have hpresent : ¬ (signed.get "Signature-Input" = "" ∨ signed.get "Signature" = "") := by
    intro hmissing
    unfold verifyHMAC at hok
    rw [if_pos hmissing] at hok
    cases hok
  unfold verifyHMAC buildSignatureBase
  rw [if_neg hpresent, hsp]
  simp only [hselect, hlines', hsent, bind, Except.bind, pure, Except.pure]
  exact hmacOk

/-- **Which tamperings are always rejected.** Take a signed request whose
header selects the signing key, and another method, path or body. If the
method or the path changed, or both bodies are there, every request with
the two signature headers is rejected, whatever its other headers and
the time. If the signed request itself is accepted at some time, that is
also necessary. -/
theorem tampering_rejected_iff (hmac : Function.Injective (GoStd.hmacSHA256 secret))
    (hsha : Function.Injective GoStd.sha256) {now clock : Time}
    (hsign : signRequest req keyID secret body now clock = .ok signed)
    (hkey : ∀ sp, parseSignatureInput (signed.get "Signature-Input") = .ok sp →
      ∀ s, cfg.hmacKeys.lookup sp.keyID = some s → s = secret)
    (method path : Line) (body' : List UInt8)
    (hdiff : method ≠ req.method ∨ path ≠ req.escapedPath ∨ body' ≠ body) :
    let AllRejected := ∀ req' : Request, req'.method = method → req'.escapedPath = path →
      req'.get "Signature-Input" = signed.get "Signature-Input" →
      req'.get "Signature" = signed.get "Signature" →
      ∀ now', ∃ text, verifyHMAC cfg req' body' now' = .error (.rejected text)
    let Bound := method ≠ req.method ∨ path ≠ req.escapedPath ∨ (body ≠ [] ∧ body' ≠ [])
    (Bound → AllRejected) ∧
      ((∃ now₀, verifyHMAC cfg signed body now₀ = .ok ()) → AllRejected → Bound) := by
  have hs := signRequest_spec hsign
  refine ⟨fun hbound req' hm hp hin hsig now' => ?_, fun ⟨now₀, hok⟩ hall => ?_⟩
  · have hvalue : parseSignatureValue (req'.get "Signature") ≠ .error .panic := by
      rw [hsig, hs.signature, parseSignatureValue_signatureText]
      simp
    have hinput : parseSignatureInput (req'.get "Signature-Input") ≠ .error .panic := by
      rcases hs.parse hin with ⟨text, h⟩ | ⟨sp, h, -⟩ <;> simp [h]
    refine verifyHMAC_rejected hinput hvalue fun hok => ?_
    obtain ⟨h1, h2, h3⟩ := hs.accepted hmac hsha hin hsig hkey hok
    have hm' : method = req.method := by
      rw [← hm]
      exact Line.ext h1
    have hp' : path = req.escapedPath := by
      rw [← hp]
      exact Line.ext h2
    rcases hbound with h | h | ⟨hb, hb'⟩
    · exact h hm'
    · exact h hp'
    · exact (hdiff.resolve_left (not_not.mpr hm')).resolve_left (not_not.mpr hp') (h3 hb hb')
  · by_contra hnot
    simp only [not_or, not_not, not_and_or] at hnot
    obtain ⟨rfl, rfl, hb⟩ := hnot
    have hacc := hs.body_unbound hb hok
    obtain ⟨text, hrej⟩ := hall signed hs.method hs.escapedPath rfl rfl now₀
    rw [hacc] at hrej
    cases hrej

end Binding

end Given

/-! ## The two gaps on a concrete key -/

def plainConfig : Config where
  profiles := [.hmac]
  hmacKeys := Finmap.singleton "k" [1]
  bearerTokens := []
  maxSkew := 300000000000

def plainRequest : Request where
  method := postMethod
  path := "/v1/artifacts"
  escapedPath := artifactsPath
  header := ∅

/-- `plainRequest` signed for a body. -/
def plainSigned (body : List UInt8) : Except String Request :=
  @signRequest GoStd.plain plainRequest "k" [1] body 62135596801000000000 0

/-- Sent with another body, it is rejected under any headers. -/
theorem tampering_rejected_iff_other_body :
    ∃ signed, plainSigned [7] = .ok signed ∧ ∀ req' : Request,
      req'.method = plainRequest.method → req'.escapedPath = plainRequest.escapedPath →
      req'.get "Signature-Input" = signed.get "Signature-Input" →
      req'.get "Signature" = signed.get "Signature" →
      ∀ now', ∃ text, @verifyHMAC GoStd.plain plainConfig req' [8] now' =
        .error (.rejected text) := by
  let _ := GoStd.plain
  have hmac : Function.Injective (GoStd.hmacSHA256 [1]) := fun _ _ h => List.append_cancel_left h
  have hsha : Function.Injective GoStd.sha256 := fun _ _ h => h
  have hkey : ∀ id s, plainConfig.hmacKeys.lookup id = some s → s = [1] := by
    intro id s h
    by_cases hid : id = "k"
    · subst hid
      simpa [plainConfig] using h.symm
    · rw [plainConfig, Finmap.lookup_eq_none.mpr (by simpa using hid)] at h
      cases h
  obtain ⟨signed, hsign⟩ : ∃ signed, signRequest plainRequest "k" [1] [7] 62135596801000000000 0 =
    .ok signed := ⟨_, rfl⟩
  refine ⟨signed, hsign, (tampering_rejected_iff hmac hsha hsign
    (fun sp _ s h => hkey sp.keyID s h) plainRequest.method plainRequest.escapedPath [8] ?_).1 ?_⟩
  · exact .inr (.inr (by decide))
  · exact .inr (.inr (by decide))

/-- The signed request is accepted with the other body, if one of the two
is empty. -/
theorem plainSigned_accepted {signed : Request} {body body' : List UInt8} {sp : SignatureParams}
    (h : plainSigned body = .ok signed) (hb : body = [] ∨ body' = [])
    (hsp : @parseSignatureInput GoStd.plain (signed.get "Signature-Input") = .ok sp)
    (hkey : @selectKey GoStd.plain plainConfig sp 62135596801000000000 = .ok [1]) :
    @verifyHMAC GoStd.plain plainConfig signed body' 62135596801000000000 = .ok () := by
  let _ := GoStd.plain
  have hs := signRequest_spec h
  exact hs.body_unbound hb (hs.accepts hsp hkey)

/-- A request signed for a body is accepted without it, and a request
signed for no body is accepted with one. -/
theorem tampered_body_accepted :
    (∃ signed, plainSigned [7] = .ok signed ∧
      @verifyHMAC GoStd.plain plainConfig signed [] 62135596801000000000 = .ok ()) ∧
    (∃ signed, plainSigned [] = .ok signed ∧
      @verifyHMAC GoStd.plain plainConfig signed [7] 62135596801000000000 = .ok ()) :=
  ⟨⟨_, rfl, plainSigned_accepted rfl (.inr rfl) rfl (by decide)⟩,
    ⟨_, rfl, plainSigned_accepted rfl (.inl rfl) rfl (by decide)⟩⟩

end Scintx.Auth
