/-
Scintx.Auth.Config — the configuration of the gate, from the environment
(`internal/auth/config.go`).

Four variables; an unset one is empty. The key list is
`keyid:secret,keyid:secret`: a part is cut at its first colon and both
halves are trimmed, so a key id is any text without a comma or a colon
that does not begin or end with a space.
-/
import Scintx.Auth.Sign

namespace Scintx.Auth

open Scintx.Lib Scintx.Api

/-- The variables `ConfigFromEnv` reads. -/
structure AuthEnv where
  /-- `SCINTX_AUTH`. -/
  auth : String
  /-- `SCINTX_AUTH_MAX_SKEW`. -/
  maxSkew : String
  /-- `SCINTX_AUTH_HMAC_KEYS`. -/
  hmacKeys : String
  /-- `SCINTX_AUTH_BEARER_TOKENS`. -/
  bearerTokens : String

def appendUnique (ps : List Profile) (v : Profile) : List Profile :=
  if v ∈ ps then ps else ps ++ [v]

section Given

variable [GoStd]

/-- The loop over the profiles of `SCINTX_AUTH`. -/
def profilesFrom (ps : List Profile) : List (List Char) → Except String (List Profile)
  | [] => .ok ps
  | part :: parts =>
    let p := String.ofList (trimSpaceList part)
    if p = "hmac" ∨ p = "hmac-sha256" ∨ p = "rfc9421" then
      profilesFrom (appendUnique ps .hmac) parts
    else if p = "bearer" ∨ p = "oauth" ∨ p = "token" then
      profilesFrom (appendUnique ps .bearer) parts
    else if p = "" then profilesFrom ps parts
    else
      .error ("SCINTX_AUTH: unknown profile " ++ quote p ++ " (want hmac, bearer, or off)")

/-- Five minutes unless the variable says otherwise. -/
def maxSkewFrom (d : String) : Except String Duration :=
  if d = "" then .ok 300000000000
  else
    match GoStd.parseDuration d with
    | .ok parsed => .ok parsed
    | .error e => .error ("SCINTX_AUTH_MAX_SKEW: " ++ e)

/-- One part of the key list; an empty one is passed over. -/
def hmacKeyFrom (part : List Char) : Except String (Option (String × List UInt8)) :=
  let part := trimSpaceList part
  let bad : Except String (Option (String × List UInt8)) :=
    .error ("SCINTX_AUTH_HMAC_KEYS: want keyid:secret, got " ++ quote (String.ofList part))
  if part = [] then .ok none
  else
    match cutChar ':' part with
    | none => bad
    | some (keyid, secret) =>
      let keyid := trimSpaceList keyid
      let secret := trimSpaceList secret
      if keyid = [] ∨ secret = [] then bad
      else .ok (some (String.ofList keyid, bytesOf (String.ofList secret)))

/-- The loop over the key list; a later key replaces an earlier one. -/
def hmacKeysFrom (keys : GoMap (List UInt8)) :
    List (List Char) → Except String (GoMap (List UInt8))
  | [] => .ok keys
  | part :: parts =>
    match hmacKeyFrom part with
    | .error e => .error e
    | .ok none => hmacKeysFrom keys parts
    | .ok (some (keyid, secret)) => hmacKeysFrom (keys.insert keyid secret) parts

omit [GoStd] in
def bearerTokensFrom (parts : List (List Char)) : List String :=
  parts.foldl (fun toks part =>
    let tok := String.ofList (trimSpaceList part)
    if tok = "" then toks else toks.insert tok) []

omit [GoStd] in
/-- Every enabled profile has something to check against. -/
def requireCredentials (hmacKeys : GoMap (List UInt8)) (bearerTokens : List String) :
    List Profile → Except String Unit
  | [] => .ok ()
  | .hmac :: ps =>
    if hmacKeys = ∅ then .error "SCINTX_AUTH_HMAC_KEYS is required when hmac auth is enabled"
    else requireCredentials hmacKeys bearerTokens ps
  | .bearer :: ps =>
    if bearerTokens = [] then
      .error "SCINTX_AUTH_BEARER_TOKENS is required when bearer auth is enabled"
    else requireCredentials hmacKeys bearerTokens ps

def configFromEnv (env : AuthEnv) : Except String Config :=
  let raw := toLower (trimSpace env.auth)
  if raw = "" ∨ raw = "off" ∨ raw = "none" then
    .ok { profiles := [], hmacKeys := ∅, bearerTokens := [], maxSkew := 300000000000 }
  else do
    let profiles ← profilesFrom [] (splitChar ',' raw.toList)
    let maxSkew ← maxSkewFrom env.maxSkew
    let hmacKeys ← hmacKeysFrom ∅ (splitChar ',' env.hmacKeys.toList)
    let bearerTokens := bearerTokensFrom (splitChar ',' env.bearerTokens.toList)
    requireCredentials hmacKeys bearerTokens profiles
    return { profiles := profiles, hmacKeys := hmacKeys, bearerTokens := bearerTokens
             maxSkew := maxSkew }

/-! ## What a key list admits -/

/-- A key id and the text of a secret that a key list can hold. -/
structure EnvKey (keyID secretText : String) : Prop where
  keyID_ne : keyID ≠ ""
  secret_ne : secretText ≠ ""
  keyID_trimmed : Trimmed keyID.toList
  secret_trimmed : Trimmed secretText.toList
  noColon : ':' ∉ keyID.toList
  noComma : ',' ∉ keyID.toList
  secret_noComma : ',' ∉ secretText.toList

theorem hmacKeyFrom_spec {part : List Char} {keyID : String} {secret : List UInt8}
    (hpart : ',' ∉ part) (h : hmacKeyFrom part = .ok (some (keyID, secret))) :
    ∃ text, EnvKey keyID text ∧ bytesOf text = secret := by
  simp only [hmacKeyFrom] at h
  split at h
  · cases h
  rcases cutChar_cases ':' (trimSpaceList part) with ⟨-, hcut⟩ | ⟨k, v, hk, htext, hcut⟩
  · simp [hcut] at h
  simp only [hcut] at h
  split at h
  · cases h
  rename_i hne
  simp only [not_or] at hne
  simp only [Except.ok.injEq, Option.some.injEq, Prod.mk.injEq] at h
  obtain ⟨rfl, rfl⟩ := h
  have hsub : ∀ c ∈ k ++ ':' :: v, c ∈ part := by
    intro c hc
    rw [← htext] at hc
    exact trimSpaceList_subset part hc
  refine ⟨_, ⟨?_, ?_, ?_, ?_, ?_, ?_, ?_⟩, rfl⟩ <;>
    simp only [String.toList_ofList, ne_eq, String.ofList_eq_empty_iff]
  · exact hne.1
  · exact hne.2
  · exact trimmed_trimSpaceList k
  · exact trimmed_trimSpaceList v
  · exact fun hc => hk (trimSpaceList_subset k hc)
  · exact fun hc => hpart (hsub _ (by simp [trimSpaceList_subset k hc]))
  · exact fun hc => hpart (hsub _ (by simp [trimSpaceList_subset v hc]))

theorem hmacKeysFrom_lookup {parts : List (List Char)} {keys keys' : GoMap (List UInt8)}
    (h : hmacKeysFrom keys parts = .ok keys') {keyID : String} {secret : List UInt8}
    (hkey : keys'.lookup keyID = some secret) :
    keys.lookup keyID = some secret ∨
      ∃ part ∈ parts, hmacKeyFrom part = .ok (some (keyID, secret)) := by
  induction parts generalizing keys with
  | nil =>
    cases h
    exact .inl hkey
  | cons part parts ih =>
    rw [hmacKeysFrom] at h
    split at h
    · cases h
    · exact (ih h).imp_right fun ⟨p, hp, heq⟩ => ⟨p, by simp [hp], heq⟩
    · rename_i id sec hfrom
      rcases ih h with hin | ⟨p, hp, heq⟩
      · by_cases hid : keyID = id
        · subst hid
          rw [Finmap.lookup_insert] at hin
          rw [Option.some.inj hin] at hfrom
          exact .inr ⟨part, by simp, hfrom⟩
        · rw [Finmap.lookup_insert_of_ne _ hid] at hin
          exact .inl hin
      · exact .inr ⟨p, by simp [hp], heq⟩

/-- The steps of a configuration that has a key. -/
theorem configFromEnv_spec {env : AuthEnv} {cfg : Config} (h : configFromEnv env = .ok cfg)
    (hkeys : cfg.hmacKeys ≠ ∅) :
    let raw := toLower (trimSpace env.auth)
    ¬ (raw = "" ∨ raw = "off" ∨ raw = "none") ∧
      profilesFrom [] (splitChar ',' raw.toList) = .ok cfg.profiles ∧
      maxSkewFrom env.maxSkew = .ok cfg.maxSkew ∧
      hmacKeysFrom ∅ (splitChar ',' env.hmacKeys.toList) = .ok cfg.hmacKeys ∧
      cfg.bearerTokens = bearerTokensFrom (splitChar ',' env.bearerTokens.toList) ∧
      requireCredentials cfg.hmacKeys cfg.bearerTokens cfg.profiles = .ok () := by
  simp only [configFromEnv] at h
  split at h
  · cases h
    exact absurd rfl hkeys
  rename_i hon
  refine ⟨hon, ?_⟩
  obtain ⟨profiles, hprofiles, h⟩ := bind_eq_ok h
  obtain ⟨maxSkew, hskew, h⟩ := bind_eq_ok h
  obtain ⟨keys, hfrom, h⟩ := bind_eq_ok h
  obtain ⟨u, hreq, h⟩ := bind_eq_ok h
  cases h
  exact ⟨hprofiles, hskew, hfrom, rfl, hreq⟩

theorem configFromEnv_key {env : AuthEnv} {cfg : Config} (h : configFromEnv env = .ok cfg)
    {keyID : String} {secret : List UInt8} (hkey : cfg.hmacKeys.lookup keyID = some secret) :
    ∃ text, EnvKey keyID text ∧ bytesOf text = secret := by
  have hne : cfg.hmacKeys ≠ ∅ := by
    intro hempty
    rw [hempty, Finmap.lookup_empty] at hkey
    cases hkey
  obtain ⟨-, -, -, hkeys, -⟩ := configFromEnv_spec h hne
  rcases hmacKeysFrom_lookup hkeys hkey with hin | ⟨part, hpart, hfrom⟩
  · rw [Finmap.lookup_empty] at hin
    cases hin
  · exact hmacKeyFrom_spec (mem_splitChar hpart).1 hfrom

omit [GoStd] in
theorem requireCredentials_of_keys {keys keys' : GoMap (List UInt8)} {tokens : List String}
    {ps : List Profile} (h : requireCredentials keys tokens ps = .ok ()) (hkeys : keys' ≠ ∅) :
    requireCredentials keys' tokens ps = .ok () := by
  induction ps with
  | nil => rfl
  | cons p ps ih =>
    cases p with
    | hmac =>
      rw [requireCredentials] at h ⊢
      rw [if_neg hkeys]
      split at h
      · cases h
      · exact ih h
    | bearer =>
      rw [requireCredentials] at h ⊢
      split at h
      · cases h
      · rename_i htok
        rw [if_neg htok]
        exact ih h

/-- A key that the list admits is read back when it is the only one. -/
theorem EnvKey.read {keyID secretText : String} (hk : EnvKey keyID secretText) :
    hmacKeyFrom (keyID ++ ":" ++ secretText).toList =
      .ok (some (keyID, bytesOf secretText)) := by
  have hid : keyID.toList ≠ [] := by simpa using hk.keyID_ne
  have hsecret : secretText.toList ≠ [] := by simpa using hk.secret_ne
  have htext : (keyID ++ ":" ++ secretText).toList =
      keyID.toList ++ ':' :: secretText.toList := by simp
  have htrim : trimSpaceList (keyID.toList ++ ':' :: secretText.toList) =
      keyID.toList ++ ':' :: secretText.toList :=
    trimSpaceList_eq_self (hk.keyID_trimmed.append hk.secret_trimmed hid hsecret [':'])
  simp only [hmacKeyFrom, htext, htrim, cutChar_append _ hk.noColon,
    trimSpaceList_eq_self hk.keyID_trimmed, trimSpaceList_eq_self hk.secret_trimmed, hid, hsecret,
    List.append_eq_nil_iff, false_and, or_self, if_false, String.ofList_toList]

theorem EnvKey.readAll {keyID secretText : String} (hk : EnvKey keyID secretText) :
    hmacKeysFrom ∅ (splitChar ',' (keyID ++ ":" ++ secretText).toList) =
      .ok ((∅ : GoMap _).insert keyID (bytesOf secretText)) := by
  have hcomma : ',' ∉ (keyID ++ ":" ++ secretText).toList := by
    simp only [String.toList_append, List.mem_append, not_or]
    exact ⟨⟨hk.noComma, by decide⟩, hk.secret_noComma⟩
  rw [splitChar_of_not_mem hcomma, hmacKeysFrom, hk.read]
  rfl

/-- The environment with one key in place of its keys. -/
def AuthEnv.withKey (env : AuthEnv) (keyID secretText : String) : AuthEnv :=
  { env with hmacKeys := keyID ++ ":" ++ secretText }

theorem EnvKey.withKey_ok {keyID secretText : String} (hk : EnvKey keyID secretText)
    {env : AuthEnv} {cfg : Config} (h : configFromEnv env = .ok cfg)
    (hkeys : cfg.hmacKeys ≠ ∅) :
    configFromEnv (env.withKey keyID secretText) =
      .ok { cfg with hmacKeys := (∅ : GoMap _).insert keyID (bytesOf secretText) } := by
  obtain ⟨hon, hprofiles, hskew, -, htokens, hreq⟩ := configFromEnv_spec h hkeys
  have hne : (∅ : GoMap (List UInt8)).insert keyID (bytesOf secretText) ≠ ∅ := by
    intro hempty
    have := congrArg (Finmap.lookup keyID) hempty
    simp at this
  have hreq' := requireCredentials_of_keys hreq hne
  simp only [configFromEnv, AuthEnv.withKey, if_neg hon, hprofiles, hskew, hk.readAll,
    ← htokens, hreq', bind, Except.bind, pure, Except.pure]

end Given

end Scintx.Auth
