/-
Scintx.Credentials.Rotation — whether the token that was set is the token
that is found.

A failed write to the keyring leaves in the keyring what it had. `Set`
then writes to the file and reports success, but `Get` prefers the
keyring, so an older token there overrules the newer one in the file as
soon as the keyring can be read. `Vault.found` is what a `Get` finds, in
terms of what the two places say; `set_works` is what a `Set` leaves
there. `finds_last_set_iff` puts them together.
-/
import Scintx.Credentials.Resolve

namespace Scintx.Credentials

open Scintx.Lib

/-! ## What an operation leaves alone -/

/-- Both places say the same about `key`. -/
structure Vault.SameAt (key : String) (v v' : Vault) : Prop where
  keyring : v'.keyring.lookup key = v.keyring.lookup key
  file : v'.doc.lookup key = v.doc.lookup key

theorem Vault.SameAt.refl (key : String) (v : Vault) : v.SameAt key v := ⟨rfl, rfl⟩

theorem Vault.SameAt.trans {key : String} {v v' v'' : Vault} (h : v.SameAt key v')
    (h' : v'.SameAt key v'') : v.SameAt key v'' :=
  ⟨h'.keyring.trans h.keyring, h'.file.trans h.file⟩

section Operations

variable {f : FileFault} {v v' : Vault} {provider key : String} {c : ProviderCreds}

theorem setInFile_ok (h : setInFile f v provider c = .ok v') :
    v'.keyring = v.keyring ∧ v'.doc = v.doc.insert provider c := by
  obtain ⟨doc, hload, hsave⟩ := bind_eq_ok h
  simp only [loadFile] at hload
  simp only [saveFile] at hsave
  split at hload <;> cases hload
  split at hsave <;> cases hsave
  exact ⟨rfl, rfl⟩

theorem setInFile_works (v : Vault) (provider : String) (c : ProviderCreds) :
    setInFile {} v provider c = .ok { v with file := some (v.doc.insert provider c) } := rfl

/-- What a deletion that returns no error leaves in the file. -/
theorem deleteFromFile_ok (h : deleteFromFile f v provider = .ok v') :
    v'.keyring = v.keyring ∧ (v' = v ∨ v'.doc = v.doc.erase provider) := by
  obtain ⟨doc, hload, hrest⟩ := bind_eq_ok h
  simp only [loadFile] at hload
  split at hload <;> cases hload
  split at hrest
  · cases hrest
    exact ⟨rfl, .inl rfl⟩
  · simp only at hrest
    split at hrest
    · rename_i hempty
      cases hrest
      split
      · exact ⟨rfl, .inl rfl⟩
      · exact ⟨rfl, .inr hempty.symm⟩
    · simp only [saveFile] at hrest
      split at hrest <;> cases hrest
      exact ⟨rfl, .inr rfl⟩

theorem setInFile_sameAt (h : setInFile f v provider c = .ok v') (hne : key ≠ provider) :
    v.SameAt key v' := by
  obtain ⟨hkeyring, hdoc⟩ := setInFile_ok h
  exact ⟨by rw [hkeyring], by rw [hdoc, Finmap.lookup_insert_of_ne _ hne]⟩

theorem deleteFromFile_sameAt (h : deleteFromFile f v provider = .ok v') (hne : key ≠ provider) :
    v.SameAt key v' := by
  obtain ⟨hkeyring, rfl | hdoc⟩ := deleteFromFile_ok h
  · exact .refl key _
  · exact ⟨by rw [hkeyring], by rw [hdoc, Finmap.lookup_erase_ne hne]⟩

theorem deleteFromFile_getD (hne : key ≠ provider) :
    v.SameAt key ((deleteFromFile f v provider).toOption.getD v) := by
  cases hdel : deleteFromFile f v provider with
  | error e => exact .refl key v
  | ok v' => exact deleteFromFile_sameAt hdel hne

/-- After a deletion with a file that works the entry is gone. -/
theorem deleteFromFile_works (v : Vault) (provider : String) :
    ∃ v', deleteFromFile {} v provider = .ok v' ∧ v'.keyring = v.keyring ∧
      v'.doc.lookup provider = none := by
  cases hentry : v.doc.lookup provider with
  | none =>
    refine ⟨v, ?_, rfl, hentry⟩
    simp only [deleteFromFile, loadFile, bind, Except.bind, hentry]
  | some c =>
    by_cases hempty : v.doc.erase provider = ∅
    · refine ⟨{ v with file := none }, ?_, rfl, rfl⟩
      simp only [deleteFromFile, loadFile, bind, Except.bind, hentry, if_pos hempty]
      rfl
    · refine ⟨{ v with file := some (v.doc.erase provider) }, ?_, rfl, Finmap.lookup_erase ..⟩
      simp only [deleteFromFile, loadFile, bind, Except.bind, hentry, if_neg hempty]
      rfl

end Operations

section Calls

variable {v v' : Vault} {key : String}

theorem set_sameAt (f : Faults) (v : Vault) {provider : String} (c : ProviderCreds)
    (hne : key ≠ trimSpace provider) : v.SameAt key (set f v provider c).vault := by
  unfold set
  simp only
  split
  · exact .refl key v
  split
  · exact .refl key v
  split
  · rename_i v₁ hkeyring
    have h₁ : v.SameAt key v₁ := by
      unfold setInKeyring at hkeyring
      split at hkeyring <;> cases hkeyring
      exact ⟨Finmap.lookup_insert_of_ne _ hne, rfl⟩
    have h₂ := h₁.trans (@deleteFromFile_getD f.stale _ _ _ hne)
    split
    · exact h₂
    · split
      · exact h₂
      · rename_i v₃ hset
        exact h₂.trans (setInFile_sameAt hset hne)
  · split
    · exact .refl key v
    · rename_i v₁ hset
      exact setInFile_sameAt hset hne

theorem clear_sameAt (f : Faults) (v : Vault) {provider : String}
    (hne : key ≠ trimSpace provider) : v.SameAt key (clear f v provider).1 := by
  unfold clear
  simp only
  split
  · exact .refl key v
  · have h₁ : v.SameAt key
        ((deleteFromKeyring f.keyring v (trimSpace provider)).toOption.getD v) := by
      unfold deleteFromKeyring
      split
      · exact .refl key v
      · exact ⟨Finmap.lookup_erase_ne hne, rfl⟩
    exact h₁.trans (deleteFromFile_getD hne)

theorem Call.apply_sameAt (v : Vault) (call : Call) (hne : key ≠ call.provider) :
    v.SameAt key (call.apply v) := by
  cases call with
  | set f provider c => exact set_sameAt f v c hne
  | clear f provider => exact clear_sameAt f v hne

/-- Calls about other providers leave a provider's entries alone. -/
theorem Vault.after_sameAt {calls : List Call} (h : ∀ call ∈ calls, key ≠ call.provider) :
    v.SameAt key (v.after calls) := by
  induction calls generalizing v with
  | nil => exact .refl key v
  | cons call rest ih =>
    have hfirst := call.apply_sameAt v (h call List.mem_cons_self)
    exact hfirst.trans (ih fun call hcall => h call (List.mem_cons_of_mem _ hcall))

end Calls

/-! ## What a provider's credentials are -/

/-- The token the keyring has. -/
def Vault.secret (v : Vault) (key : String) : Option String :=
  (v.keyring.lookup key).filter (· ≠ "")

/-- What the file says, nothing if it says nothing. -/
def Vault.entry (v : Vault) (key : String) : ProviderCreds :=
  (v.doc.lookup key).getD {}

/-- `Get` without a token in the environment, of credentials alone. -/
def Vault.found (v : Vault) (available : Bool) (key : String) : ProviderCreds :=
  match (if available then v.secret key else none) with
  | some token => { token := token, user := (v.entry key).user }
  | none => if (v.entry key).token = "" then {} else v.entry key

/-- The environment has no token for the provider. -/
def Host.TokenUnset (h : Host) (provider : String) : Prop :=
  ∀ spec, h.lookup (trimSpace provider) = some spec → spec.tokenEnv ≠ "" →
    trimSpace (h.getenv spec.tokenEnv) = ""

theorem fromEnv_unset {h : Host} {provider : String} (hunset : h.TokenUnset provider) :
    fromEnv h (trimSpace provider) = none := by
  unfold fromEnv
  split
  · rfl
  · rename_i spec hspec
    split
    · rfl
    · rename_i hnamed
      simp only [hunset spec hspec hnamed, if_pos]

theorem getFromFile_works (v : Vault) (key : String) :
    getFromFile {} v key = .ok (if v.entry key = {} then none else some (v.entry key)) := by
  simp only [getFromFile, loadFile, Vault.entry, bind, Except.bind]
  rcases Option.eq_none_or_eq_some (v.doc.lookup key) with hnone | ⟨c, hsome⟩
  · simp only [hnone, Option.getD_none, if_pos]
  · simp only [hsome, Option.getD_some]
    congr 2
    rw [eq_iff_iff, ProviderCreds.mk.injEq]

theorem userFromFileOnly_works (v : Vault) (key : String) :
    userFromFileOnly {} v key = (v.entry key).user := by
  rw [userFromFileOnly, getFromFile_works]
  split
  · rename_i hnone
    cases hnone
  · rename_i hnone
    split at hnone
    · rename_i hempty
      rw [hempty]
    · cases hnone
  · rename_i c hsome
    split at hsome <;> cases hsome
    rfl

theorem fromFile_works (v : Vault) (key : String) :
    ∃ r, fromFile {} v key = .ok r ∧
      r.creds = if (v.entry key).token = "" then {} else v.entry key := by
  rw [fromFile, getFromFile_works]
  by_cases hempty : v.entry key = {}
  · rw [hempty]
    exact ⟨_, rfl, rfl⟩
  · rw [if_neg hempty]
    refine ⟨_, rfl, ?_⟩
    split <;> rfl

theorem getFromKeyring_available (v : Vault) (key : String) :
    getFromKeyring none v key = .ok (v.secret key) := by
  unfold getFromKeyring Vault.secret
  cases v.keyring.lookup key with
  | none => rfl
  | some secret => by_cases hempty : secret = "" <;> simp [hempty, Option.filter]

/-- **What `Get` returns** when the file works. -/
theorem get_eq {h : Host} {f : Faults} {provider : String} (hunset : h.TokenUnset provider)
    (hfile : f.FileWorks) (hkey : trimSpace provider ≠ "") (v : Vault) :
    ∃ r, get h f v provider = .ok r ∧
      r.creds = v.found (f.keyring = none) (trimSpace provider) := by
  simp only [get, if_neg hkey, fromEnv_unset hunset, hfile.1, Vault.found]
  cases f.keyring with
  | some e => exact fromFile_works v (trimSpace provider)
  | none =>
    rw [getFromKeyring_available]
    cases v.secret (trimSpace provider) with
    | none => exact fromFile_works v (trimSpace provider)
    | some token => exact ⟨_, rfl, by rw [userFromFileOnly_works]; rfl⟩

theorem Vault.SameAt.found {key : String} {v v' : Vault} (h : v.SameAt key v')
    (available : Bool) : v'.found available key = v.found available key := by
  have hsecret : v'.secret key = v.secret key := by rw [Vault.secret, Vault.secret, h.keyring]
  have hentry : v'.entry key = v.entry key := by rw [Vault.entry, Vault.entry, h.file]
  rw [Vault.found, Vault.found, hsecret, hentry]

/-! ## What `Set` leaves -/

/-- The credentials as `Set` stores them. -/
def ProviderCreds.trimmed (c : ProviderCreds) : ProviderCreds :=
  { token := trimSpace c.token, user := trimSpace c.user }

/-- `Set` writes the token to the keyring and keeps the user in the file,
or leaves the keyring as it is and writes both to the file. -/
theorem set_works {f : Faults} {v : Vault} {provider : String} {c : ProviderCreds}
    (hfile : f.FileWorks) (hset : (set f v provider c).err = none) :
    trimSpace provider ≠ "" ∧ c.trimmed.token ≠ "" ∧
    if f.keyring = none then
      (set f v provider c).vault.secret (trimSpace provider) = some c.trimmed.token ∧
      (set f v provider c).vault.entry (trimSpace provider) = { user := c.trimmed.user }
    else
      (set f v provider c).vault.secret (trimSpace provider) = v.secret (trimSpace provider) ∧
      (set f v provider c).vault.entry (trimSpace provider) = c.trimmed := by
  by_cases hkey : trimSpace provider = ""
  · simp [set, hkey] at hset
  by_cases htoken : trimSpace c.token = ""
  · simp [set, hkey, htoken] at hset
  refine ⟨hkey, htoken, ?_⟩
  simp only [set, if_neg hkey, if_neg htoken, hfile.1, hfile.2]
  cases hkeyring : f.keyring with
  | some e =>
    simp [setInKeyring, setInFile_works, Vault.entry, Vault.doc, Vault.secret]
    rfl
  | none =>
    obtain ⟨v₁, hdel, hring, hgone⟩ := deleteFromFile_works
      { v with keyring := v.keyring.insert (trimSpace provider) (trimSpace c.token) }
      (trimSpace provider)
    have hsecret : v₁.secret (trimSpace provider) = some c.trimmed.token := by
      rw [Vault.secret, hring, Finmap.lookup_insert]
      simp [Option.filter, htoken, ProviderCreds.trimmed]
    simp only [setInKeyring, hdel, Except.toOption, Option.getD_some, if_pos]
    by_cases huser : trimSpace c.user = ""
    · rw [if_pos huser]
      refine ⟨hsecret, ?_⟩
      rw [Vault.entry, hgone, ProviderCreds.trimmed, huser]
      rfl
    · rw [if_neg huser, setInFile_works]
      refine ⟨hsecret, ?_⟩
      simp [Vault.entry, Vault.doc, ProviderCreds.trimmed]

/-! ## Reading one's own write -/

/-- The keyring has no token but `token`. -/
def Vault.NoOther (v : Vault) (key token : String) : Prop :=
  ∀ t, v.keyring.lookup key = some t → t = "" ∨ t = token

theorem Vault.noOther_iff {v : Vault} {key token : String} :
    v.NoOther key token ↔ ∀ t, v.secret key = some t → t = token := by
  constructor
  · intro h t ht
    obtain ⟨hlookup, hne⟩ := Option.filter_eq_some_iff.mp ht
    exact (h t hlookup).resolve_left (of_decide_eq_true hne)
  · intro h t ht
    by_cases hempty : t = ""
    · exact .inl hempty
    · exact .inr (h t (Option.filter_eq_some_iff.mpr ⟨ht, decide_eq_true hempty⟩))

/-- Where both places agree on what to find. -/
theorem Vault.found_keyring {v : Vault} {key : String} {c : ProviderCreds}
    (hsecret : v.secret key = some c.token) (hentry : v.entry key = { user := c.user })
    (available : Bool) (htoken : (v.found available key).token ≠ "") :
    v.found available key = c := by
  cases available with
  | true => simp [Vault.found, hsecret, hentry]
  | false => simp [Vault.found, hentry] at htoken

/-- Where the file has the credentials, the keyring may overrule them. -/
theorem Vault.found_file {v : Vault} {key : String} {c : ProviderCreds} (htoken : c.token ≠ "")
    (hentry : v.entry key = c) :
    (∀ available, (v.found available key).token ≠ "" → v.found available key = c) ↔
      ∀ t, v.secret key = some t → t = c.token := by
  constructor
  · intro h t ht
    have hfound : v.found true key = { token := t, user := c.user } := by
      simp [Vault.found, ht, hentry]
    have hne := (Option.filter_eq_some_iff.mp ht).2
    have := h true (by rw [hfound]; exact of_decide_eq_true hne)
    rw [hfound] at this
    rw [← this]
  · intro h available _
    unfold Vault.found
    split
    · rename_i t ht
      split at ht
      · rw [hentry, h t ht]
      · cases ht
    · rw [hentry, if_neg htoken]

/-- **When a token that was set is found.** Whatever calls came before
and whatever calls about other providers came after: every `Get` that
finds a token finds the one of the last `Set`, with its user, if and
only if that `Set` could write to the keyring, or the keyring had no
other token. -/
theorem finds_last_set_iff (v₀ : Vault) (before after : List Call) {f : Faults}
    {provider : String} {c : ProviderCreds} (hfile : f.FileWorks)
    (hset : (set f (v₀.after before) provider c).err = none)
    (hafter : ∀ call ∈ after, trimSpace provider ≠ call.provider) :
    (∀ h f', h.TokenUnset provider → f'.FileWorks →
      ∀ r, get h f' ((set f (v₀.after before) provider c).vault.after after) provider = .ok r →
        r.creds.token ≠ "" →
        r.creds = { token := trimSpace c.token, user := trimSpace c.user }) ↔
      f.keyring = none ∨ (v₀.after before).NoOther (trimSpace provider) (trimSpace c.token) := by
  obtain ⟨hkey, htoken, hleft⟩ := set_works hfile hset
  generalize v₀.after before = v at *
  generalize hv' : (set f v provider c).vault = v' at *
  -- a `Get` sees what `Set` left
  have hget {h : Host} {f' : Faults} (hunset : h.TokenUnset provider) (hworks : f'.FileWorks) :
      ∃ r, get h f' (v'.after after) provider = .ok r ∧
        r.creds = v'.found (f'.keyring = none) (trimSpace provider) := by
    obtain ⟨r, hr, hcreds⟩ := get_eq hunset hworks hkey (v'.after after)
    exact ⟨r, hr, hcreds.trans ((Vault.after_sameAt hafter).found _)⟩
  have hall : (∀ h f', h.TokenUnset provider → f'.FileWorks →
      ∀ r, get h f' (v'.after after) provider = .ok r → r.creds.token ≠ "" →
        r.creds = c.trimmed) ↔
      ∀ available, (v'.found available (trimSpace provider)).token ≠ "" →
        v'.found available (trimSpace provider) = c.trimmed := by
    constructor
    · intro h available htok
      have hworks : Faults.FileWorks { keyring := if available then none else some "" } :=
        ⟨rfl, rfl⟩
      obtain ⟨r, hr, hcreds⟩ := hget (h := {}) (fun spec hspec => by cases hspec) hworks
      have hsame : decide ((if available then none else some "") = (none : Option String)) =
          available := by
        cases available <;> rfl
      rw [hsame] at hcreds
      rw [← hcreds] at htok ⊢
      exact h {} _ (fun spec hspec => by cases hspec) hworks r hr htok
    · intro h host f' hunset hworks r hr htok
      obtain ⟨r', hr', hcreds⟩ := hget hunset hworks
      rw [hr, Except.ok.injEq] at hr'
      rw [← hr'] at hcreds
      rw [hcreds] at htok ⊢
      exact h _ htok
  rw [← ProviderCreds.trimmed, hall, Vault.noOther_iff]
  cases hkeyring : f.keyring with
  | none =>
    rw [if_pos hkeyring] at hleft
    simp only [true_or, iff_true]
    exact Vault.found_keyring hleft.1 hleft.2
  | some e =>
    rw [if_neg (by simp [hkeyring])] at hleft
    simp only [reduceCtorEq, false_or]
    rw [← hleft.1]
    exact Vault.found_file htoken hleft.2

/-- The keyring takes a first token, fails when the token is rotated, and
is back when it is read: the first token is found, with the new user. -/
theorem rotated_token_not_found :
    let first : Call := .set {} "osv" { token := "old", user := "alice" }
    let v := Vault.after {} [first]
    let second := set { keyring := some "no keyring" } v "osv" { token := "new", user := "bob" }
    second.err = none ∧ second.source = .file ∧
    get {} {} second.vault "osv" =
      .ok { creds := { token := "old", user := "bob" }, source := .keyring } := by
  decide +kernel

/-- A token set while the keyring is there replaces the one before. -/
theorem finds_last_set_iff_rotated :
    let v := (set {} (Vault.after {} [.set {} "osv" { token := "old" }]) "osv"
      { token := " new ", user := "bob" }).vault.after [.clear {} "ossindex"]
    ∃ r, get {} {} v "osv" = .ok r ∧ r.source = .keyring ∧
      r.creds = { token := "new", user := "bob" } := by
  intro v
  have hunset : Host.TokenUnset {} "osv" := fun spec hspec => by cases hspec
  have hfound : ∃ r, get {} {} v "osv" = .ok r ∧ r.source = .keyring ∧ r.creds.token ≠ "" :=
    ⟨{ creds := { token := "new", user := "bob" }, source := .keyring }, by decide +kernel, rfl,
      by decide⟩
  obtain ⟨r, hget, hsource, htoken⟩ := hfound
  refine ⟨r, hget, hsource, ?_⟩
  exact (finds_last_set_iff {} [.set {} "osv" { token := "old" }] [.clear {} "ossindex"]
    (f := {}) (c := { token := " new ", user := "bob" }) ⟨rfl, rfl⟩ (by decide +kernel)
    (by decide +kernel)).mpr (.inl rfl) {} {} hunset ⟨rfl, rfl⟩ r hget htoken

end Scintx.Credentials
