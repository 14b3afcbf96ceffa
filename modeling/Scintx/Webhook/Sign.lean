/-
Scintx.Webhook.Sign — the signature of an outgoing event, and its check
at the subscriber (`internal/webhook/sign.go`).

The header is `t=<seconds>,v1=<hex of the MAC>`, and the MAC is over the
decimal seconds, a dot and the body. `VerifySignature` reads the header
with `fmt.Sscanf`, which takes what follows the number for granted, and
a later part of one name replaces an earlier one.

Two results. What the gateway signs is accepted for the body it was made
for and for no other (`verifySignature_signed_iff`); and whatever header
is accepted, its MAC is one over the very body and time that were
accepted (`verifySignature_ok_iff`), so where no MAC can be made up the
body was signed (`accepted_was_signed`). The clocks enter through `skewOf`.
The source negates a duration, and the least one is its own negation: a
time more than 292 years ahead has NO skew to be too large
(`skewOf_le_iff`).
-/
import Mathlib.Data.List.TakeWhile
import Scintx.Auth.Sign

namespace Scintx.Webhook

open Scintx.Lib Scintx.Api Scintx.Auth

/-! ## `fmt.Sscanf` -/

section Given

variable [GoStd]

/-- `%d` into an `int64`: spaces, an optional sign, digits. What follows
is not read. -/
def scanInt (cs : List Char) : Except String Int :=
  match cs.dropWhile fun c => isSpace c && c ≠ '\n' with
  | [] => .error "EOF"
  | c :: rest =>
    if c = '\n' then .error "unexpected newline"
    else
      let sign := if c = '+' ∨ c = '-' then [c] else []
      let rest := if c = '+' ∨ c = '-' then rest else c :: rest
      if rest = [] then .error "EOF"
      else
        let digits := rest.takeWhile Char.isDigit
        if digits = [] then .error "expected integer" else parseInt64 (sign ++ digits)

/-! ## Signing -/

/-- What the MAC is over. -/
def signedMessage (ts : Int) (body : List UInt8) : List UInt8 :=
  bytesOf (toString ts ++ ".") ++ body

def signBody (secret : List UInt8) (ts : Int) (body : List UInt8) : String :=
  hexEncode (GoStd.hmacSHA256 secret (signedMessage ts body))

/-- `fmt.Sprintf("t=%d,v1=%s", ts, sig)`. -/
def signatureHeader (ts : Int) (sig : String) : String :=
  "t=" ++ toString ts ++ ",v1=" ++ sig

/-! ## Verifying -/

/-- What the loop over the parts has found. -/
structure SignatureFields where
  ts : Int := 0
  v1 : String := ""

def readPart (f : SignatureFields) (part : List Char) : Except String SignatureFields :=
  let part := trimSpaceList part
  if "t=".toList.isPrefixOf part then
    match scanInt (part.drop 2) with
    | .error e => .error ("bad t=: " ++ e)
    | .ok ts => .ok { f with ts := ts }
  else if "v1=".toList.isPrefixOf part then .ok { f with v1 := String.ofList (part.drop 3) }
  else .ok f

def readHeader (sigHeader : String) : Except String SignatureFields :=
  (splitChar ',' sigHeader.toList).foldlM readPart {}

/-- The distance of a time from the clock, both ways. The negation is one
of 64 bits. -/
def skewOf (now : Time) (ts : Int) : Duration :=
  let skew := subTime now (unixTime ts)
  if skew < 0 then wrapInt64 (-skew) else skew

def verifySignature (secret : List UInt8) (sigHeader : String) (body : List UInt8)
    (maxSkew : Duration) (now : Time) : Except String Unit := do
  let f ← readHeader sigHeader
  if f.ts = 0 ∨ f.v1 = "" then .error "missing t= or v1="
  else if 0 < maxSkew ∧ maxSkew < skewOf now f.ts then .error "timestamp skew too large"
  else if signBody secret f.ts body ≠ f.v1 then .error "signature mismatch"
  else .ok ()

/-! ## Reading what was written -/

/-- A number that was printed is read back. -/
theorem scanInt_toString {ts : Int} (hlow : minInt64 ≤ ts) (hhigh : ts ≤ maxInt64) :
    scanInt (toString ts).toList = .ok ts := by
  have hparse := parseInt64_toString hlow hhigh
  cases ts with
  | ofNat n =>
    have htext : (toString (Int.ofNat n)).toList = Nat.toDigits 10 n := Nat.toList_repr
    rw [htext] at hparse ⊢
    have hdigit : ∀ c ∈ Nat.toDigits 10 n, c.isDigit = true := fun c hc =>
      Nat.isDigit_of_mem_toDigits (by decide) (by decide) hc
    generalize hds : Nat.toDigits 10 n = ds at hparse hdigit ⊢
    cases ds with
    | nil => exact absurd hds Nat.toDigits_ne_nil
    | cons c ds =>
      have hc := hdigit c List.mem_cons_self
      have hspace := isSpace_of_isDigit hc
      have hnl : c ≠ '\n' := by rintro rfl; cases hc
      have hplus : ¬ (c = '+' ∨ c = '-') := by rintro (rfl | rfl) <;> cases hc
      have htake : (c :: ds).takeWhile Char.isDigit = c :: ds :=
        List.takeWhile_eq_self_iff.mpr hdigit
      simp only [scanInt, List.dropWhile_cons, hspace, Bool.false_and, Bool.false_eq_true,
        if_false, hnl, hplus, htake, reduceCtorEq, List.nil_append]
      exact hparse
  | negSucc n =>
    have htext : (toString (Int.negSucc n)).toList = '-' :: Nat.toDigits 10 (n + 1) := by
      rw [Int.toString_eq_repr, Int.repr, String.toList_append, Nat.toList_repr]
      rfl
    rw [htext] at hparse ⊢
    have htake : (Nat.toDigits 10 (n + 1)).takeWhile Char.isDigit = Nat.toDigits 10 (n + 1) :=
      List.takeWhile_eq_self_iff.mpr fun c hc =>
        Nat.isDigit_of_mem_toDigits (by decide) (by decide) hc
    have hspace : isSpace '-' = false := by decide
    have hnl : ('-' : Char) ≠ '\n' := by decide
    simp only [scanInt, List.dropWhile_cons, hspace, Bool.false_and, Bool.false_eq_true, if_false,
      hnl, or_true, if_true, Nat.toDigits_ne_nil, htake, List.singleton_append]
    exact hparse

omit [GoStd] in
theorem hex_plain {bs : List UInt8} {c : Char} (h : c ∈ (hexEncode bs).toList) :
    c ≠ ',' ∧ isSpace c = false := by
  have hall : ∀ n < 16, hexDigit n ≠ ',' ∧ isSpace (hexDigit n) = false := by decide
  obtain ⟨n, hn, rfl⟩ := mem_hexEncode h
  exact hall n hn

/-- **The header is read back**: its time and its MAC. -/
theorem readHeader_signatureHeader {ts : Int} (hlow : minInt64 ≤ ts) (hhigh : ts ≤ maxInt64)
    {mac : List UInt8} (hmac : mac ≠ []) :
    readHeader (signatureHeader ts (hexEncode mac)) = .ok { ts := ts, v1 := hexEncode mac } := by
  have hsplit : splitChar ',' (signatureHeader ts (hexEncode mac)).toList =
      ['t' :: '=' :: (toString ts).toList, 'v' :: '1' :: '=' :: (hexEncode mac).toList] := by
    have htext : (signatureHeader ts (hexEncode mac)).toList =
        ('t' :: '=' :: (toString ts).toList) ++
          ',' :: ('v' :: '1' :: '=' :: (hexEncode mac).toList) := by
      simp [signatureHeader]
    have htime : ',' ∉ 't' :: '=' :: (toString ts).toList := by
      intro hmem
      simp only [List.mem_cons, Char.reduceEq, false_or] at hmem
      rcases mem_toString hmem with hdigit | hminus
      · cases hdigit
      · cases hminus
    have hhex : ',' ∉ 'v' :: '1' :: '=' :: (hexEncode mac).toList := by
      intro hmem
      simp only [List.mem_cons, Char.reduceEq, false_or] at hmem
      exact (hex_plain hmem).1 rfl
    rw [htext, splitChar_append _ htime, splitChar_of_not_mem hhex]
  have hletter (c : Char) (h : isSpace c = false) : Trimmed [c] :=
    ⟨fun x hx => by obtain rfl : c = x := by simpa using hx
                    exact h,
      fun x hx => by obtain rfl : c = x := by simpa using hx
                     exact h⟩
  have htime : trimSpaceList ('t' :: '=' :: (toString ts).toList) =
      't' :: '=' :: (toString ts).toList :=
    trimSpaceList_eq_self ((hletter 't' (by decide)).append (trimmed_toString ts) (by decide)
      (toString_ne_nil ts) ['='])
  have hhex : Trimmed (hexEncode mac).toList :=
    ⟨fun c hc => (hex_plain (List.mem_of_mem_head? hc)).2,
      fun c hc => (hex_plain (List.mem_of_getLast? hc)).2⟩
  have hmacPart : trimSpaceList ('v' :: '1' :: '=' :: (hexEncode mac).toList) =
      'v' :: '1' :: '=' :: (hexEncode mac).toList :=
    trimSpaceList_eq_self ((hletter 'v' (by decide)).append hhex (by decide)
      (fun hnil => hmac (hexEncode_eq_nil.mp hnil)) ['1', '='])
  have hfirst : readPart {} ('t' :: '=' :: (toString ts).toList) = .ok { ts := ts } := by
    simp only [readPart, htime]
    rw [if_pos (by rfl), List.drop_succ_cons, List.drop_succ_cons, List.drop_zero,
      scanInt_toString hlow hhigh]
  have hsecond : readPart { ts := ts } ('v' :: '1' :: '=' :: (hexEncode mac).toList) =
      .ok { ts := ts, v1 := hexEncode mac } := by
    simp [readPart, hmacPart]
  rw [readHeader, hsplit, List.foldlM_cons, hfirst]
  simp only [bind, Except.bind, List.foldlM_cons, hsecond, List.foldlM_nil]
  rfl

/-! ## Clocks -/

omit [GoStd] in
/-- The least duration is its own negation. -/
theorem saturated_le_iff {d m : Int} (hpos : 0 < m) (hmax : m < maxInt64) :
    (if max minInt64 (min maxInt64 d) < 0 then wrapInt64 (-max minInt64 (min maxInt64 d))
      else max minInt64 (min maxInt64 d)) ≤ m ↔ |d| ≤ m ∨ d ≤ minInt64 := by
  rw [abs_le]
  by_cases hlow : d ≤ minInt64
  · have hsat : max minInt64 (min maxInt64 d) = minInt64 := by
      unfold minInt64 maxInt64 at *
      omega
    have hwrap : wrapInt64 (-minInt64) = minInt64 := by decide
    rw [hsat, if_pos (by decide), hwrap]
    unfold minInt64 at *
    omega
  · have hsat : max minInt64 (min maxInt64 d) = min maxInt64 d := by
      unfold minInt64 maxInt64 at *
      omega
    rw [hsat]
    split
    · rw [wrapInt64_of_bounds (by unfold minInt64 maxInt64 at *; omega)
        (by unfold minInt64 maxInt64 at *; omega)]
      unfold maxInt64 at *
      omega
    · unfold maxInt64 at *
      omega

omit [GoStd] in
/-- The skew passes if the times are close, or if the signed one is out
of range ahead. -/
theorem skewOf_le_iff {now : Time} {ts : Int} {maxSkew : Duration} (hpos : 0 < maxSkew)
    (hmax : maxSkew < maxInt64) :
    skewOf now ts ≤ maxSkew ↔ |now - unixTime ts| ≤ maxSkew ∨ now - unixTime ts ≤ minInt64 :=
  saturated_le_iff hpos hmax

/-! ## What is accepted -/

/-- The header was read, its time is close and its MAC is that of the
body. -/
theorem verifySignature_ok_iff {secret : List UInt8} {header : String} {body : List UInt8}
    {maxSkew : Duration} {now : Time} :
    verifySignature secret header body maxSkew now = .ok () ↔
      ∃ f, readHeader header = .ok f ∧ f.ts ≠ 0 ∧ f.v1 ≠ "" ∧
        (maxSkew ≤ 0 ∨ skewOf now f.ts ≤ maxSkew) ∧ signBody secret f.ts body = f.v1 := by
  unfold verifySignature
  cases hf : readHeader header with
  | error e => simp [bind, Except.bind]
  | ok f =>
    simp only [bind, Except.bind, Except.ok.injEq, exists_eq_left']
    by_cases hmissing : f.ts = 0 ∨ f.v1 = ""
    · rw [if_pos hmissing]
      simp only [reduceCtorEq, false_iff]
      tauto
    · rw [if_neg hmissing]
      obtain ⟨hts, hv1⟩ := not_or.mp hmissing
      by_cases hskew : 0 < maxSkew ∧ maxSkew < skewOf now f.ts
      · rw [if_pos hskew]
        simp only [reduceCtorEq, false_iff, not_and]
        intro _ _ hclose
        rcases hclose with hoff | hclose
        · exact absurd hskew.1 (not_lt.mpr hoff)
        · exact absurd hskew.2 (not_lt.mpr hclose)
      · rw [if_neg hskew]
        by_cases hsig : signBody secret f.ts body = f.v1
        · simp only [hsig, ne_eq, not_true_eq_false, if_false, true_iff]
          refine ⟨hts, hv1, ?_, trivial⟩
          rcases not_and_or.mp hskew with hoff | hclose
          · exact .inl (not_lt.mp hoff)
          · exact .inr (not_lt.mp hclose)
        · simp [hsig]

/-- **What the gateway signs is accepted for its body and no other**, as
long as the clocks agree; or the subscriber's clock is 292 years behind.
Zero seconds are taken for a missing time. -/
theorem verifySignature_signed_iff {secret body body' : List UInt8} {ts : Int}
    {maxSkew : Duration} {now : Time} (hlow : minInt64 ≤ ts) (hhigh : ts ≤ maxInt64)
    (hskew : maxSkew < maxInt64)
    (hmac : GoStd.hmacSHA256 secret (signedMessage ts body) ≠ [])
    (hcoll : ∀ m, GoStd.hmacSHA256 secret m = GoStd.hmacSHA256 secret (signedMessage ts body) →
      m = signedMessage ts body) :
    verifySignature secret (signatureHeader ts (signBody secret ts body)) body' maxSkew now =
        .ok () ↔
      body' = body ∧ ts ≠ 0 ∧ (maxSkew ≤ 0 ∨ |now - unixTime ts| ≤ maxSkew ∨
        now - unixTime ts ≤ minInt64) := by
  have hsame : signBody secret ts body' = signBody secret ts body ↔ body' = body := by
    constructor
    · intro h
      exact List.append_cancel_left (hcoll _ (hexEncode_injective h))
    · rintro rfl
      rfl
  have hv1 : hexEncode (GoStd.hmacSHA256 secret (signedMessage ts body)) ≠ "" := by
    intro h
    exact hmac (hexEncode_eq_nil.mp (by rw [h]; rfl))
  have hclock : (maxSkew ≤ 0 ∨ skewOf now ts ≤ maxSkew) ↔
      (maxSkew ≤ 0 ∨ |now - unixTime ts| ≤ maxSkew ∨ now - unixTime ts ≤ minInt64) := by
    by_cases hpos : 0 < maxSkew
    · rw [skewOf_le_iff hpos hskew]
    · simp [not_lt.mp hpos]
  rw [verifySignature_ok_iff, signBody, readHeader_signatureHeader hlow hhigh hmac]
  simp only [Except.ok.injEq, exists_eq_left', hclock]
  rw [← signBody, hsame]
  tauto

end Given

/-- A body signed at one second, checked with both clocks at that time. -/
theorem verifySignature_signed_iff_one :
    @verifySignature GoStd.plain [107] (signatureHeader 1 (@signBody GoStd.plain [107] 1 [123]))
      [123] 300000000000 (unixTime 1) = .ok () := by
  let _ := GoStd.plain
  refine (verifySignature_signed_iff (by decide) (by decide) (by decide) (fun h => by cases h)
    (fun m hm => List.append_cancel_left hm)).mpr ⟨rfl, by decide, .inr (.inl ?_)⟩
  simp

/-! ## Where an accepted body comes from -/

section Given

variable [GoStd]

omit [GoStd] in
/-- The time and the body can be told from what is signed: the digits have
no dot. -/
theorem signedMessage_inj {ts ts' : Int} {body body' : List UInt8}
    (h : signedMessage ts body = signedMessage ts' body') : ts = ts' ∧ body = body' := by
  have hdot (n : Int) : (46 : UInt8) ∉ bytesOf (toString n) := by
    intro hmem
    rcases mem_bytesOf_toString hmem with hminus | ⟨hlow, -⟩
    · exact absurd hminus (by decide)
    · exact absurd hlow (by decide)
  have hform (n : Int) (b : List UInt8) : signedMessage n b = bytesOf (toString n) ++ 46 :: b := by
    rw [signedMessage, bytesOf_append, List.append_assoc]
    rfl
  rw [hform, hform] at h
  obtain ⟨hnum, hbody⟩ := append_mark_inj (hdot ts) (hdot ts') h
  exact ⟨toString_int_injective (bytesOf_injective hnum), hbody⟩

/-- **An accepted body was signed.** `sent` are the times and bodies that
were signed under the secret; a MAC that the header brings is one of
theirs. Then the accepted body is among them, with a time that the
subscriber's clock is close to. -/
theorem accepted_was_signed {secret body : List UInt8} {header : String} {maxSkew : Duration}
    {now : Time} {sent : List (Int × List UInt8)}
    (hmacs : ∀ f m, readHeader header = .ok f → f.v1 = hexEncode (GoStd.hmacSHA256 secret m) →
      m ∈ sent.map fun p => signedMessage p.1 p.2)
    (h : verifySignature secret header body maxSkew now = .ok ()) :
    ∃ ts, (ts, body) ∈ sent ∧ (maxSkew ≤ 0 ∨ skewOf now ts ≤ maxSkew) := by
  obtain ⟨f, hf, -, -, hskew, hsig⟩ := verifySignature_ok_iff.mp h
  obtain ⟨⟨ts, body'⟩, hsent, heq⟩ := List.mem_map.mp (hmacs f _ hf hsig.symm)
  obtain ⟨rfl, rfl⟩ := signedMessage_inj heq
  exact ⟨_, hsent, hskew⟩

end Given

end Scintx.Webhook
