/-
Scintx.Auth.Panics — where the scan of the signature headers leaves the
text it scans.

Each slice of the source is guarded by a test that should keep it in
bounds. `rest[1:end]` is: `rest` begins with `(`, so a `)` is found
behind it. `rest[1:len(rest)-1]` is not: the two tests for a colon in
front and at the end are met by ONE colon.
-/
import Scintx.Auth.SignTheorems

namespace Scintx.Auth

open Scintx.Lib Scintx.Api

/-! ## Slices -/

theorem slice_eq_none_iff {cs : List Char} {i j : Nat} :
    slice cs i j = none ↔ ¬ (i ≤ j ∧ j ≤ cs.length) := by
  unfold slice
  split <;> simp_all

theorem slice_isSome {cs : List Char} {i j : Nat} (hij : i ≤ j) (hj : j ≤ cs.length) :
    ∃ part, slice cs i j = some part :=
  ⟨_, if_pos ⟨hij, hj⟩⟩

/-- A character found behind a first one that is another. -/
theorem indexChar_bounds {c first : Char} {cs : List Char} {i : Nat} (hfirst : first ≠ c)
    (h : indexChar c (first :: cs) = some i) : 1 ≤ i ∧ i < (first :: cs).length := by
  obtain ⟨hlt, hi, -⟩ := List.findIdx?_eq_some_iff_getElem.mp h
  refine ⟨Nat.one_le_iff_ne_zero.mpr ?_, hlt⟩
  rintro rfl
  exact hfirst (by simpa using hi)

/-! ## The two headers -/

/-- A header whose text behind the label is one colon, up to spaces. -/
def LoneColon (header : String) : Prop :=
  ∃ label rest, '=' ∉ label ∧ trimSpaceList header.toList = label ++ '=' :: rest ∧
    trimSpaceList rest = [':']

/-- A text with a colon at both ends, or one colon. -/
theorem colons_iff {cs : List Char} (hpre : [':'].isPrefixOf cs = true) :
    slice cs 1 (cs.length - 1) = none ↔ cs = [':'] := by
  cases cs with
  | nil => cases hpre
  | cons c cs =>
    obtain rfl : ':' = c := by simpa [List.isPrefixOf] using hpre
    rw [slice_eq_none_iff]
    cases cs <;> simp

theorem parseSignatureValue_panic_iff (header : String) :
    parseSignatureValue header = .error .panic ↔ LoneColon header := by
  unfold parseSignatureValue LoneColon
  rcases cutChar_cases '=' (trimSpaceList header.toList) with
    ⟨hnot, hcut⟩ | ⟨label, rest, hlabel, htext, hcut⟩
  · simp only [hcut, Except.error.injEq, reduceCtorEq, false_iff]
    rintro ⟨label, rest, -, htext, -⟩
    exact hnot (by simp [htext])
  · have hunique : (∃ label' rest', '=' ∉ label' ∧
        trimSpaceList header.toList = label' ++ '=' :: rest' ∧ trimSpaceList rest' = [':']) ↔
        trimSpaceList rest = [':'] := by
      constructor
      · rintro ⟨label', rest', hlabel', htext', hcolon⟩
        obtain ⟨-, rfl⟩ := append_sep_inj hlabel hlabel' (htext.symm.trans htext')
        exact hcolon
      · exact fun hcolon => ⟨label, rest, hlabel, htext, hcolon⟩
    rw [hunique]
    simp only [hcut]
    split
    · rename_i hguard
      simp only [Except.error.injEq, reduceCtorEq, false_iff]
      intro hcolon
      simp [hcolon, List.isSuffixOf] at hguard
    · rename_i hguard
      have hpre : [':'].isPrefixOf (trimSpaceList rest) = true := by
        simp only [Bool.not_eq_true', Bool.and_eq_false_iff, not_or, Bool.not_eq_false] at hguard
        exact hguard.1
      rw [← colons_iff hpre]
      split <;> simp_all

section Given

variable [GoStd]

theorem parseSignatureInput_ne_panic (header : String) :
    parseSignatureInput header ≠ .error .panic := by
  unfold parseSignatureInput
  cases hcut : cutChar '=' (trimSpaceList header.toList) with
  | none => simp
  | some parts =>
    obtain ⟨label, rest⟩ := parts
    simp only
    cases hrest : trimSpaceList rest with
    | nil => simp [List.isPrefixOf]
    | cons first tail =>
      by_cases hfirst : first = '('
      · subst hfirst
        cases hindex : indexChar ')' ('(' :: tail) with
        | none => simp [List.isPrefixOf]
        | some close =>
          obtain ⟨hlow, hhigh⟩ := indexChar_bounds (by decide) hindex
          obtain ⟨list, hlist⟩ := slice_isSome hlow hhigh.le
          obtain ⟨params, hparams⟩ := slice_isSome hhigh (le_refl ('(' :: tail).length)
          simp only [hlist, hparams]
          repeat' split
          all_goals simp
      · simp [List.isPrefixOf, Ne.symm hfirst]

theorem buildSignatureBase_ne_panic (req : Request) (sp : SignatureParams) (body : List UInt8) :
    buildSignatureBase req sp body ≠ .error .panic := by
  unfold buildSignatureBase
  cases h : verifierLines req body sp.components with
  | ok lines => simp [bind, Except.bind, pure, Except.pure]
  | error f =>
    obtain ⟨text, rfl⟩ := verifierLines_rejected h
    simp [bind, Except.bind]

/-! ## The verifier -/

/-- A header with a lone colon is there, and so is one that can be
parsed. -/
theorem LoneColon.headers_there {req : Request} {sp : SignatureParams}
    (h : LoneColon (req.get "Signature"))
    (hsp : parseSignatureInput (req.get "Signature-Input") = .ok sp) :
    ¬ (req.get "Signature-Input" = "" ∨ req.get "Signature" = "") := by
  obtain ⟨label, rest, -, htext, -⟩ := h
  rintro (hempty | hempty)
  · rw [hempty] at hsp
    cases hsp
  · rw [hempty] at htext
    simp [trimSpaceList] at htext

/-- The verifier panics when everything before the signature value is in
order and that value is one colon. -/
theorem verifyHMAC_panic_iff (cfg : Config) (req : Request) (body : List UInt8) (now : Time) :
    verifyHMAC cfg req body now = .error .panic ↔
      LoneColon (req.get "Signature") ∧
        ∃ sp secret base, parseSignatureInput (req.get "Signature-Input") = .ok sp ∧
          selectKey cfg sp now = .ok secret ∧ buildSignatureBase req sp body = .ok base := by
  have hpanic : ∀ {f : Failure}, parseSignatureValue (req.get "Signature") = .error f →
      (f = .panic ↔ LoneColon (req.get "Signature")) := by
    intro f hf
    rw [← parseSignatureValue_panic_iff, hf, Except.error.injEq]
  constructor
  · intro h
    unfold verifyHMAC at h
    simp only at h
    split at h
    · cases h
    -- the first stage that fails is the one that panics
    cases hsp : parseSignatureInput (req.get "Signature-Input") with
    | error f =>
      rw [hsp] at h
      cases h
      exact absurd hsp (parseSignatureInput_ne_panic _)
    | ok sp =>
    cases hkey : selectKey cfg sp now with
    | error f =>
      simp only [hsp, hkey, bind, Except.bind, Except.error.injEq] at h
      exact absurd (h ▸ hkey) (selectKey_ne_panic cfg sp now)
    | ok secret =>
    cases hbase : buildSignatureBase req sp body with
    | error f =>
      simp only [hsp, hkey, hbase, bind, Except.bind, Except.error.injEq] at h
      exact absurd (h ▸ hbase) (buildSignatureBase_ne_panic req sp body)
    | ok base =>
    cases hsent : parseSignatureValue (req.get "Signature") with
    | error f =>
      simp only [hsp, hkey, hbase, hsent, bind, Except.bind, Except.error.injEq] at h
      exact ⟨(hpanic hsent).mp h, sp, secret, base, rfl, hkey, hbase⟩
    | ok sent =>
      simp only [hsp, hkey, hbase, hsent, bind, Except.bind] at h
      exact absurd h (checkMac_ne_panic secret base sent)
  · rintro ⟨hcolon, sp, secret, base, hsp, hkey, hbase⟩
    have hsent := (parseSignatureValue_panic_iff _).mpr hcolon
    unfold verifyHMAC
    rw [if_neg (hcolon.headers_there hsp), hsp]
    simp only [hkey, hbase, hsent, bind, Except.bind]

/-- **When no request with these headers makes the verifier panic.** The
scans of the two headers, the rebuilding of the base and the verifier
stay in bounds for every request and configuration exactly if the
signature header is not a lone colon. -/
theorem verifier_in_bounds_iff (input sig : String) :
    (parseSignatureInput input ≠ .error .panic ∧ parseSignatureValue sig ≠ .error .panic ∧
        (∀ req sp body, buildSignatureBase req sp body ≠ .error .panic) ∧
        ∀ cfg (req : Request) body now, req.get "Signature-Input" = input →
          req.get "Signature" = sig → verifyHMAC cfg req body now ≠ .error .panic) ↔
      ¬ LoneColon sig := by
  constructor
  · rintro ⟨-, hvalue, -⟩ hcolon
    exact hvalue ((parseSignatureValue_panic_iff sig).mpr hcolon)
  · intro hcolon
    refine ⟨parseSignatureInput_ne_panic input,
      fun h => hcolon ((parseSignatureValue_panic_iff sig).mp h), buildSignatureBase_ne_panic, ?_⟩
    rintro cfg req body now - rfl h
    exact hcolon ((verifyHMAC_panic_iff cfg req body now).mp h).1

end Given

/-- A request that knows a key id, the time and no secret. -/
def colonRequest : Request :=
  (plainRequest.set "Signature-Input"
      ⟨"sig1=(\"@method\");created=1;keyid=\"k\"", by decide⟩).set
    "Signature" ⟨"sig1=:", by decide⟩

theorem lone_colon_panics :
    parseSignatureValue "sig1=:" = .error .panic ∧
      @verifyHMAC GoStd.plain plainConfig colonRequest [] 62135596801000000000 =
        .error .panic := by
  decide +kernel

end Scintx.Auth
