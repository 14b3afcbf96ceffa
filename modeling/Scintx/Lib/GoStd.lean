/-
Scintx.Lib.GoStd — the parts of Go's standard library that programs over
texts and digests rest on.

Two kinds of things. `GoStd` holds what is taken as given: the digest
functions, the Unicode case tables, the printable characters and
`time.ParseDuration`. All that is assumed of them here is that a line
feed is not printable and that a character equals itself under case
folding; a result that needs more (an injective digest, say) states it.
The rest is the `strings`, `encoding/hex` and `fmt` functions themselves,
over characters.

A Go string is a sequence of bytes; here it is a `String`, that is valid
UTF-8, and its bytes are `bytesOf`.
-/
import Mathlib.Data.Finmap
import Mathlib.Data.List.Sort
import Mathlib.Data.String.Basic

namespace Scintx.Lib

class GoStd where
  sha256 : List UInt8 → List UInt8
  hmacSHA256 (key message : List UInt8) : List UInt8
  /-- `unicode.ToUpper`. -/
  upper : Char → Char
  /-- `unicode.ToLower`. -/
  lower : Char → Char
  /-- Equal under simple case folding, the relation of `strings.EqualFold`. -/
  foldEq : Char → Char → Bool
  foldEq_refl : ∀ c, foldEq c c = true
  /-- `strconv.IsPrint`. -/
  isPrint : Char → Bool
  isPrint_lineFeed : isPrint '\n' = false
  /-- The text of the error for a malformed base64 input. -/
  base64Error : String → String
  /-- `time.ParseDuration`, in nanoseconds, or the text of its error. -/
  parseDuration : String → Except String Int

/-- A standard library to evaluate on: ASCII case tables, digests that are
the identity, no durations. -/
@[reducible] def GoStd.plain : GoStd where
  sha256 := id
  hmacSHA256 key message := key ++ message
  upper := Char.toUpper
  lower := Char.toLower
  foldEq a b := a.toLower = b.toLower
  foldEq_refl _ := decide_eq_true rfl
  isPrint c := ' ' ≤ c && c ≤ '~'
  isPrint_lineFeed := by decide
  base64Error _ := "illegal base64 data"
  parseDuration _ := .error "time: invalid duration"

/-- `map[string]α`. -/
abbrev GoMap (α : Type) := Finmap fun _ : String => α

namespace GoMap

variable {α : Type}

/-- An order in which `range` may visit the map. -/
def Enumerates (m : GoMap α) (order : List String) : Prop :=
  (order : Multiset String) = m.keys.val

instance (m : GoMap α) (order : List String) : Decidable (m.Enumerates order) :=
  inferInstanceAs (Decidable (_ = _))

theorem Enumerates.mem_iff {m : GoMap α} {order : List String} (h : m.Enumerates order)
    {k : String} : k ∈ order ↔ k ∈ m := by
  rw [← Multiset.mem_coe, h, Finset.mem_val, Finmap.mem_keys]

end GoMap

/-- The stages of a computation that did not fail. -/
theorem bind_eq_ok {α β ε : Type} {x : Except ε α} {f : α → Except ε β} {b : β}
    (h : (x >>= f) = .ok b) : ∃ a, x = .ok a ∧ f a = .ok b := by
  cases x with
  | error e => cases h
  | ok a => exact ⟨a, rfl, h⟩

/-- The bytes of a string. -/
def bytesOf (s : String) : List UInt8 :=
  s.toByteArray.data.toList

/-! ## `strings` -/

/-- `unicode.IsSpace`. -/
def isSpace (c : Char) : Bool :=
  c ∈ ['\t', '\n', '\x0b', '\x0c', '\r', ' ', '\u0085', '\u00a0', '\u1680', '\u2028', '\u2029',
    '\u202f', '\u205f', '\u3000'] || ('\u2000' ≤ c && c ≤ '\u200a')

def trimSpaceList (cs : List Char) : List Char :=
  ((cs.dropWhile isSpace).reverse.dropWhile isSpace).reverse

/-- `strings.TrimSpace`. -/
def trimSpace (s : String) : String :=
  String.ofList (trimSpaceList s.toList)

/-- `strings.HasPrefix`. -/
def hasPrefix (s start : String) : Bool :=
  start.toList.isPrefixOf s.toList

/-- `strings.TrimPrefix`. -/
def trimPrefix (s start : String) : String :=
  if hasPrefix s start then String.ofList (s.toList.drop start.toList.length) else s

/-- `strings.Join`. -/
def join (parts : List String) (sep : String) : String :=
  sep.intercalate parts

/-- `strings.ReplaceAll` of a non-empty `old`: leftmost occurrences, not
overlapping. `skip` counts the characters of a match still to be dropped. -/
def replaceList (old new : List Char) : (skip : Nat) → List Char → List Char
  | _, [] => []
  | skip + 1, _ :: cs => replaceList old new skip cs
  | 0, c :: cs =>
    if old.isPrefixOf (c :: cs) then new ++ replaceList old new (old.length - 1) cs
    else c :: replaceList old new 0 cs

def replaceAll (s old new : String) : String :=
  String.ofList (replaceList old.toList new.toList 0 s.toList)

/-- `sort.Strings`. -/
def sortStrings (l : List String) : List String :=
  l.insertionSort (· ≤ ·)

/-- The order of the list does not matter. -/
theorem sortStrings_perm {l l' : List String} (h : l.Perm l') : sortStrings l = sortStrings l' :=
  List.Perm.eq_of_sortedLE List.sortedLE_insertionSort List.sortedLE_insertionSort
    ((List.perm_insertionSort _ l).trans (h.trans (List.perm_insertionSort _ l').symm))

theorem mem_sortStrings {l : List String} {v : String} : v ∈ sortStrings l ↔ v ∈ l :=
  (List.perm_insertionSort _ l).mem_iff

theorem sortStrings_eq_nil {l : List String} : sortStrings l = [] ↔ l = [] := by
  rw [← List.length_eq_zero_iff, ← List.length_eq_zero_iff, sortStrings,
    List.length_insertionSort]

/-- Sorting a list without repetition leaves it strictly ascending. -/
theorem sortStrings_pairwise_lt {l : List String} (h : l.Nodup) :
    (sortStrings l).Pairwise (· < ·) := by
  have hle : (sortStrings l).Pairwise (· ≤ ·) := List.sortedLE_insertionSort.pairwise
  have hne : (sortStrings l).Pairwise (· ≠ ·) :=
    (List.perm_insertionSort _ l).nodup_iff.mpr h
  exact (hle.and hne).imp fun h => lt_of_le_of_ne h.1 h.2

/-- The keys of a map, collected by `range` and sorted. -/
def GoMap.sortedKeys {α : Type} (m : GoMap α) : List String :=
  Quot.liftOn m.keys.val sortStrings fun _ _ => sortStrings_perm

theorem GoMap.mem_sortedKeys {α : Type} {m : GoMap α} {k : String} :
    k ∈ m.sortedKeys ↔ k ∈ m := by
  unfold GoMap.sortedKeys
  rw [← Finmap.mem_keys, ← Finset.mem_val]
  generalize m.keys.val = keys
  induction keys using Quot.inductionOn with
  | h l => exact mem_sortStrings

theorem GoMap.sortedKeys_spec {α : Type} (m : GoMap α) :
    m.sortedKeys.SortedLE ∧ m.sortedKeys.Nodup := by
  unfold GoMap.sortedKeys
  have hnodup := m.keys.nodup
  generalize m.keys.val = keys at hnodup
  induction keys using Quot.inductionOn with
  | h l => exact ⟨List.sortedLE_insertionSort, (List.perm_insertionSort _ l).nodup_iff.mpr hnodup⟩

/-- The sorted keys are the only sorted list of the keys, each once. -/
theorem GoMap.sortedKeys_eq {α : Type} {m : GoMap α} {l : List String} (hsorted : l.SortedLE)
    (hnodup : l.Nodup) (hmem : ∀ k, k ∈ l ↔ k ∈ m) : m.sortedKeys = l := by
  obtain ⟨hsorted', hnodup'⟩ := m.sortedKeys_spec
  refine List.Perm.eq_of_sortedLE hsorted' hsorted ?_
  rw [List.perm_ext_iff_of_nodup hnodup' hnodup]
  intro k
  rw [GoMap.mem_sortedKeys, hmem]

/-! ## `encoding/hex` -/

def hexDigit (n : Nat) : Char :=
  if n < 10 then Char.ofNat (48 + n) else Char.ofNat (87 + n)

/-- `hex.EncodeToString`. -/
def hexEncode (bs : List UInt8) : String :=
  String.ofList (bs.flatMap fun b => [hexDigit (b.toNat / 16), hexDigit (b.toNat % 16)])

section Given

variable [GoStd]

/-- `strings.ToUpper`. -/
def toUpper (s : String) : String :=
  String.ofList (s.toList.map GoStd.upper)

/-- `strings.ToLower`. -/
def toLower (s : String) : String :=
  String.ofList (s.toList.map GoStd.lower)

/-- What the lower case table is like: a lower case character stays, and
an ASCII character that is no letter is the lower case of itself alone. -/
structure GoStd.LowerLaws : Prop where
  idem : ∀ c, lower (lower c) = lower c
  caseless : ∀ c d, d.toNat < 128 → d.isAlpha = false → (lower c = d ↔ c = d)

theorem GoStd.LowerLaws.mem_map (h : GoStd.LowerLaws) {d : Char} {cs : List Char}
    (hd : d.toNat < 128) (halpha : d.isAlpha = false) : d ∈ cs.map lower ↔ d ∈ cs := by
  rw [List.mem_map]
  constructor
  · rintro ⟨c, hc, hlower⟩
    rwa [← (h.caseless c d hd halpha).mp hlower]
  · intro hmem
    exact ⟨d, hmem, (h.caseless d d hd halpha).mpr rfl⟩

theorem GoStd.LowerLaws.toLower_toLower (h : GoStd.LowerLaws) (s : String) :
    toLower (toLower s) = toLower s := by
  simp only [toLower, String.toList_ofList, List.map_map]
  exact congrArg String.ofList (List.map_congr_left fun c _ => h.idem c)

def equalFoldList : List Char → List Char → Bool
  | [], [] => true
  | a :: as, b :: bs => GoStd.foldEq a b && equalFoldList as bs
  | _, _ => false

/-- `strings.EqualFold`. -/
def equalFold (s t : String) : Bool :=
  equalFoldList s.toList t.toList

theorem equalFold_refl (s : String) : equalFold s s = true := by
  unfold equalFold
  induction s.toList with
  | nil => rfl
  | cons c cs ih => simp [equalFoldList, GoStd.foldEq_refl, ih]

/-- The hex form of the SHA-256 of a string. -/
def hashStr (s : String) : String :=
  hexEncode (GoStd.sha256 (bytesOf s))

/-- The escape of a character that is not printable and has no name. -/
def hexEscape (c : Char) : List Char :=
  let n := c.toNat
  let hex (digits : Nat) : List Char :=
    (List.range digits).reverse.map fun i => hexDigit (n / 16 ^ i % 16)
  if n < 0x20 ∨ n = 0x7f then '\\' :: 'x' :: hex 2
  else if n < 0x10000 then '\\' :: 'u' :: hex 4
  else '\\' :: 'U' :: hex 8

/-- One character inside a `%q` text. -/
def quoteChar (c : Char) : List Char :=
  if c = '"' ∨ c = '\\' then ['\\', c]
  else if GoStd.isPrint c then [c]
  else
    match c with
    | '\x07' => ['\\', 'a']
    | '\x08' => ['\\', 'b']
    | '\x0c' => ['\\', 'f']
    | '\n' => ['\\', 'n']
    | '\r' => ['\\', 'r']
    | '\t' => ['\\', 't']
    | '\x0b' => ['\\', 'v']
    | c => hexEscape c

/-- `%q` of a string. -/
def quote (s : String) : String :=
  String.ofList ('"' :: s.toList.flatMap quoteChar ++ ['"'])

end Given

/-! ## The ASCII case table -/

theorem toLower_cases (c : Char) :
    (65 ≤ c.toNat ∧ c.toNat ≤ 90 ∧ c.toLower.toNat = c.toNat + 32) ∨
      (¬(65 ≤ c.toNat ∧ c.toNat ≤ 90) ∧ c.toLower = c) := by
  unfold Char.toLower
  split
  · rename_i h
    rw [ge_iff_le, UInt32.le_iff_toNat_le, UInt32.le_iff_toNat_le] at h
    refine .inl ⟨h.1, h.2, ?_⟩
    change (c.val + 32).toNat = c.val.toNat + 32
    have hz : c.val.toNat ≤ 90 := h.2
    rw [UInt32.toNat_add]
    simp only [UInt32.reduceToNat]
    omega
  · rename_i h
    rw [ge_iff_le, UInt32.le_iff_toNat_le, UInt32.le_iff_toNat_le] at h
    exact .inr ⟨h, rfl⟩

theorem not_letter_of_isAlpha {c : Char} (h : c.isAlpha = false) :
    ¬(65 ≤ c.toNat ∧ c.toNat ≤ 90) ∧ ¬(97 ≤ c.toNat ∧ c.toNat ≤ 122) := by
  have hcodes : (decide (c.val ≥ 'A'.val ∧ c.val ≤ 'Z'.val) ||
      (decide (c.val ≥ 'a'.val) && decide (c.val ≤ 'z'.val))) = false := h
  simp only [ge_iff_le, UInt32.le_iff_toNat_le, Bool.or_eq_false_iff, ← Bool.decide_and,
    decide_eq_false_iff_not] at hcodes
  exact hcodes

theorem lowerLaws_plain : @GoStd.LowerLaws GoStd.plain := by
  refine @GoStd.LowerLaws.mk GoStd.plain ?_ ?_
  · intro c
    change c.toLower.toLower = c.toLower
    rcases toLower_cases c with ⟨h₁, h₂, hlow⟩ | ⟨-, hsame⟩
    · rcases toLower_cases c.toLower with ⟨h, h', -⟩ | ⟨-, hsame⟩
      · omega
      · exact hsame
    · rw [hsame, hsame]
  · intro c d _ hd
    change c.toLower = d ↔ c = d
    have hletter := not_letter_of_isAlpha hd
    rcases toLower_cases c with ⟨h₁, h₂, hlow⟩ | ⟨-, hsame⟩
    · constructor
      · rintro rfl
        omega
      · rintro rfl
        omega
    · rw [hsame]

end Scintx.Lib
