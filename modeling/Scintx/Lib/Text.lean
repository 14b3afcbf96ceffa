/-
Scintx.Lib.Text — scanning texts: `strings.Cut`, `Fields`, `Trim`,
`Split`, slicing, `strconv.ParseInt`, and texts made of parts with a
separator between them, lines among them.

All over lists of characters. Slicing is partial: `slice` is `none`
where Go panics. The cut points of the functions here are ASCII
characters, so character positions and byte positions are in bounds
together.
-/
import Scintx.Lib.GoStd

namespace Scintx.Lib

/-- `strings.Cut` at a one-character separator. -/
def cutChar (sep : Char) (cs : List Char) : Option (List Char × List Char) :=
  match cs.span (· ≠ sep) with
  | (_, []) => none
  | (before, _ :: after) => some (before, after)

/-- `strings.Index` of a one-character text. -/
def indexChar (c : Char) (cs : List Char) : Option Nat :=
  cs.findIdx? (· = c)

/-- `s[i:j]`, `none` where the bounds are out of range. -/
def slice (cs : List Char) (i j : Nat) : Option (List Char) :=
  if i ≤ j ∧ j ≤ cs.length then some ((cs.take j).drop i) else none

/-- `strings.Trim` of one character. -/
def trimChar (c : Char) (cs : List Char) : List Char :=
  ((cs.dropWhile (· = c)).reverse.dropWhile (· = c)).reverse

/-- `strings.Split` at a one-character separator. -/
def splitChar (sep : Char) : List Char → List (List Char)
  | [] => [[]]
  | c :: cs =>
    if c = sep then [] :: splitChar sep cs
    else
      match splitChar sep cs with
      | [] => [[c]]
      | part :: parts => (c :: part) :: parts

/-- `strings.Fields`. -/
def fields (cs : List Char) : List (List Char) :=
  (go [] cs).filter (· ≠ [])
where
  /-- `word` is the current field, reversed. -/
  go (word : List Char) : List Char → List (List Char)
    | [] => [word.reverse]
    | c :: cs => if isSpace c then word.reverse :: go [] cs else go (c :: word) cs

def minInt64 : Int := -9223372036854775808

def maxInt64 : Int := 9223372036854775807

/-- `n` in 64-bit two's complement. -/
def wrapInt64 (n : Int) : Int :=
  (n - minInt64) % 18446744073709551616 + minInt64

def digitsValue (cs : List Char) : Option Nat :=
  if cs = [] then none
  else cs.foldl (fun acc c => acc.bind fun n =>
    if '0' ≤ c ∧ c ≤ '9' then some (n * 10 + (c.toNat - 48)) else none) (some 0)

/-- `strconv.ParseInt(s, 10, 64)`, or the text of its error. -/
def parseInt64 [GoStd] (cs : List Char) : Except String Int :=
  let failed (why : String) : Except String Int :=
    .error ("strconv.ParseInt: parsing " ++ quote (String.ofList cs) ++ ": " ++ why)
  let value : Option Int :=
    match cs with
    | '-' :: ds => (digitsValue ds).map fun n => -(n : Int)
    | '+' :: ds => (digitsValue ds).map fun n => (n : Int)
    | ds => (digitsValue ds).map fun n => (n : Int)
  match value with
  | none => failed "invalid syntax"
  | some n => if n < minInt64 ∨ maxInt64 < n then failed "value out of range" else .ok n

/-! ## Cutting and splitting -/

section Cut

variable {sep : Char} {cs a b : List Char}

theorem span_ne_append (rest : List Char) (h : sep ∉ a) :
    (a ++ sep :: rest).span (· ≠ sep) = (a, sep :: rest) := by
  have hall : ∀ c ∈ a, (decide (c ≠ sep)) = true := by
    intro c hc
    have : c ≠ sep := fun he => h (he ▸ hc)
    simpa using this
  rw [List.span_eq_takeWhile_dropWhile, List.takeWhile_append_of_pos hall,
    List.dropWhile_append_of_pos hall]
  simp

theorem cutChar_append (rest : List Char) (h : sep ∉ a) :
    cutChar sep (a ++ sep :: rest) = some (a, rest) := by
  unfold cutChar
  rw [span_ne_append rest h]

theorem cutChar_of_not_mem (h : sep ∉ cs) : cutChar sep cs = none := by
  have hall : ∀ c ∈ cs, (decide (c ≠ sep)) = true := by
    intro c hc
    have : c ≠ sep := fun he => h (he ▸ hc)
    simpa using this
  have hspan : cs.span (· ≠ sep) = (cs, []) := by
    have htake := @List.takeWhile_append_of_pos _ _ cs [] hall
    have hdrop := @List.dropWhile_append_of_pos _ _ cs [] hall
    rw [List.append_nil] at htake hdrop
    rw [List.span_eq_takeWhile_dropWhile, htake, hdrop]
    simp
  unfold cutChar
  rw [hspan]

/-- A text has the separator, and then it is cut at the first one, or it
has not. -/
theorem cutChar_cases (sep : Char) (cs : List Char) :
    (sep ∉ cs ∧ cutChar sep cs = none) ∨
      ∃ a b, sep ∉ a ∧ cs = a ++ sep :: b ∧ cutChar sep cs = some (a, b) := by
  by_cases h : sep ∈ cs
  · obtain ⟨a, b, rfl, ha⟩ := List.eq_append_cons_of_mem h
    exact .inr ⟨a, b, ha, rfl, cutChar_append b ha⟩
  · exact .inl ⟨h, cutChar_of_not_mem h⟩

theorem splitChar_eq_splitOn (sep : Char) (cs : List Char) :
    splitChar sep cs = cs.splitOn sep := by
  induction cs with
  | nil => rfl
  | cons c cs ih =>
    rw [List.splitOn_cons_eq_if_modifyHead, ← ih, splitChar]
    by_cases hc : c = sep
    · simp [hc]
    · simp only [hc, if_false, beq_iff_eq]
      cases hsplit : splitChar sep cs with
      | nil => simp [ih, List.splitOn_ne_nil] at hsplit
      | cons part parts => rfl

theorem mem_splitChar {part : List Char} (h : part ∈ splitChar sep cs) :
    sep ∉ part ∧ part ⊆ cs := by
  induction cs generalizing part with
  | nil =>
    rw [splitChar, List.mem_singleton] at h
    simp [h]
  | cons c cs ih =>
    rw [splitChar] at h
    split at h
    · rcases List.mem_cons.mp h with rfl | h
      · simp
      · exact ⟨(ih h).1, List.subset_cons_of_subset c (ih h).2⟩
    · rename_i hc
      split at h
      · rw [List.mem_singleton] at h
        subst h
        simpa using Ne.symm hc
      · rename_i first parts hsplit
        rcases List.mem_cons.mp h with rfl | h
        · have hfirst := @ih first (by simp [hsplit])
          refine ⟨?_, List.cons_subset_cons c hfirst.2⟩
          simpa [Ne.symm hc] using hfirst.1
        · have hpart := @ih part (by simp [hsplit, h])
          exact ⟨hpart.1, List.subset_cons_of_subset c hpart.2⟩

theorem splitChar_append (rest : List Char) (h : sep ∉ a) :
    splitChar sep (a ++ sep :: rest) = a :: splitChar sep rest := by
  induction a with
  | nil => simp [splitChar]
  | cons c a ih =>
    simp only [List.mem_cons, not_or] at h
    rw [List.cons_append, splitChar, if_neg (Ne.symm h.1), ih h.2]

theorem splitChar_of_not_mem (h : sep ∉ cs) : splitChar sep cs = [cs] := by
  induction cs with
  | nil => rfl
  | cons c cs ih =>
    simp only [List.mem_cons, not_or] at h
    rw [splitChar, if_neg (Ne.symm h.1), ih h.2]

/-! ## Trimming -/

theorem dropWhile_subset {p : Char → Bool} (cs : List Char) : cs.dropWhile p ⊆ cs :=
  (List.dropWhile_suffix p).subset

theorem trimSpaceList_subset (cs : List Char) : trimSpaceList cs ⊆ cs := by
  intro c hc
  exact dropWhile_subset _ (List.mem_reverse.mp (dropWhile_subset _ (List.mem_reverse.mp hc)))

theorem trimChar_subset (q : Char) (cs : List Char) : trimChar q cs ⊆ cs := by
  intro c hc
  exact dropWhile_subset _ (List.mem_reverse.mp (dropWhile_subset _ (List.mem_reverse.mp hc)))

/-- A text that neither begins nor ends with a space. -/
def Trimmed (cs : List Char) : Prop :=
  (∀ c ∈ cs.head?, isSpace c = false) ∧ ∀ c ∈ cs.getLast?, isSpace c = false

theorem dropWhile_eq_of_head {p : Char → Bool} (h : ∀ c ∈ cs.head?, p c = false) :
    cs.dropWhile p = cs := by
  cases cs with
  | nil => rfl
  | cons c cs => simp [h c rfl]

theorem trimSpaceList_eq_self (h : Trimmed cs) : trimSpaceList cs = cs := by
  have hrev : ∀ c ∈ cs.reverse.head?, isSpace c = false := by
    rw [List.head?_reverse]
    exact h.2
  rw [trimSpaceList, dropWhile_eq_of_head h.1, dropWhile_eq_of_head hrev, List.reverse_reverse]

theorem trimmed_trimSpaceList (cs : List Char) : Trimmed (trimSpaceList cs) := by
  have hhead : ∀ l : List Char, ∀ c ∈ (l.dropWhile isSpace).head?, isSpace c = false := by
    intro l c hc
    have := List.head?_dropWhile_not isSpace l
    rw [hc] at this
    exact this
  refine ⟨fun c hc => ?_, fun c hc => ?_⟩
  · -- what is left is a start of the text without its leading spaces
    have hpre : trimSpaceList cs <+: cs.dropWhile isSpace := by
      rw [trimSpaceList, ← List.reverse_suffix, List.reverse_reverse]
      exact List.dropWhile_suffix _
    obtain ⟨rest, hrest⟩ := hpre
    refine hhead cs c ?_
    rw [← hrest, List.head?_append, hc]
    rfl
  · rw [trimSpaceList, List.getLast?_reverse] at hc
    exact hhead _ c hc

/-- A fixed text can be trimmed to see whether it is. -/
theorem trimmed_of_trimSpaceList_eq (h : trimSpaceList cs = cs) : Trimmed cs :=
  h ▸ trimmed_trimSpaceList cs

theorem Trimmed.append (ha : Trimmed a) (hb : Trimmed b) (hane : a ≠ []) (hbne : b ≠ [])
    (mid : List Char) : Trimmed (a ++ (mid ++ b)) := by
  obtain ⟨c, a, rfl⟩ := List.exists_cons_of_ne_nil hane
  refine ⟨fun x hx => ha.1 x hx, fun x hx => hb.2 x ?_⟩
  rwa [← List.append_assoc, List.getLast?_append_of_ne_nil _ hbne] at hx

theorem dropWhile_eq_of_not_mem {q : Char} (h : q ∉ cs) : cs.dropWhile (· = q) = cs := by
  cases cs with
  | nil => rfl
  | cons c cs =>
    have hc : c ≠ q := fun he => h (by simp [he])
    simp [hc]

theorem trimChar_of_not_mem {q : Char} (h : q ∉ cs) : trimChar q cs = cs := by
  rw [trimChar, dropWhile_eq_of_not_mem h, dropWhile_eq_of_not_mem (by simpa using h),
    List.reverse_reverse]

/-- A text between two quotes, without one inside. -/
theorem trimChar_quoted {q : Char} (h : q ∉ cs) : trimChar q (q :: (cs ++ [q])) = cs := by
  have hfront : (q :: (cs ++ [q])).dropWhile (· = q) = (cs ++ [q]).dropWhile (· = q) := by simp
  rw [trimChar, hfront]
  cases cs with
  | nil => simp
  | cons c cs =>
    have hc : c ≠ q := fun he => h (by simp [he])
    have hrev : q ∉ (c :: cs).reverse := by rwa [List.mem_reverse]
    rw [List.cons_append, List.dropWhile_cons_of_neg (by simpa using hc), ← List.cons_append,
      List.reverse_append, List.reverse_singleton, List.singleton_append,
      List.dropWhile_cons_of_pos (by simp), dropWhile_eq_of_not_mem hrev, List.reverse_reverse]

/-- Trimming one character keeps all others. -/
theorem count_trimChar {q d : Char} (hd : d ≠ q) (cs : List Char) :
    (trimChar q cs).count d = cs.count d := by
  have hdrop : ∀ l : List Char, (l.dropWhile (· = q)).count d = l.count d := by
    intro l
    have hsplit := congrArg (List.count d) (@List.takeWhile_append_dropWhile _ (· = q) l)
    have hfront : (l.takeWhile (· = q)).count d = 0 := by
      rw [List.count_eq_zero]
      intro hmem
      exact hd (by simpa using List.all_eq_true.mp List.all_takeWhile d hmem)
    rw [List.count_append, hfront, Nat.zero_add] at hsplit
    exact hsplit
  rw [trimChar, List.count_reverse, hdrop, List.count_reverse, hdrop]

/-- A condition on the characters of a text, checked one by one. -/
theorem forall_mem_of_all {p : Char → Prop} [DecidablePred p] {cs : List Char}
    (h : cs.all (fun c => decide (p c)) = true) : ∀ c ∈ cs, p c := by
  simpa using h

/-- A scan stops at the first character that is not of its class. -/
theorem scan_append {p : Char → Bool} {rest : List Char} (ha : ∀ c ∈ a, p c = true)
    (hrest : ∀ c ∈ rest.head?, p c = false) :
    (a ++ rest).takeWhile p = a ∧ (a ++ rest).dropWhile p = rest := by
  rw [List.takeWhile_append_of_pos ha, List.dropWhile_append_of_pos ha]
  cases rest with
  | nil => simp
  | cons c rest => simp [hrest c rfl]

/-- A scan cuts every text in two. -/
theorem scan_cases (p : Char → Bool) (cs : List Char) :
    ∃ a rest, cs = a ++ rest ∧ (∀ c ∈ a, p c = true) ∧ (∀ c ∈ rest.head?, p c = false) := by
  refine ⟨cs.takeWhile p, cs.dropWhile p, List.takeWhile_append_dropWhile.symm, ?_, ?_⟩
  · intro c hc
    exact List.all_eq_true.mp List.all_takeWhile c hc
  · intro c hc
    have hhead := List.head?_dropWhile_not p cs
    rw [hc] at hhead
    exact hhead

end Cut

/-! ## Numbers -/

theorem digitsValue_toDigits (n : Nat) : digitsValue (Nat.toDigits 10 n) = some n := by
  have hgo : ∀ (cs : List Char) (a : Nat), (∀ c ∈ cs, c.isDigit = true) →
      cs.foldl (fun acc c => acc.bind fun n =>
        if '0' ≤ c ∧ c ≤ '9' then some (n * 10 + (c.toNat - 48)) else none) (some a) =
        some (Nat.ofDigitChars 10 cs a) := by
    intro cs
    induction cs with
    | nil => simp
    | cons c cs ih =>
      intro a h
      have hc : '0' ≤ c ∧ c ≤ '9' := by
        have := h c (by simp)
        simpa [Char.isDigit, Char.le_def] using this
      rw [List.foldl_cons, Option.bind_some, if_pos hc, ih _ fun x hx => h x (by simp [hx]),
        Nat.ofDigitChars_cons, Nat.mul_comm a 10]
      rfl
  rw [digitsValue, if_neg Nat.toDigits_ne_nil, hgo _ _ fun c hc =>
    Nat.isDigit_of_mem_toDigits (by decide) (by decide) hc, Nat.ofDigitChars_ten_toDigits]

/-- Digits are read as a number without a sign. -/
theorem parseInt64_digits [GoStd] (n : Nat) (hhigh : (n : Int) ≤ maxInt64) :
    parseInt64 (Nat.toDigits 10 n) = .ok (n : Int) := by
  have hrange : ¬ ((n : Int) < minInt64 ∨ maxInt64 < (n : Int)) := by
    unfold minInt64
    omega
  have hsign : ∀ c ds, Nat.toDigits 10 n = c :: ds → c ≠ '-' ∧ c ≠ '+' := by
    intro c ds h
    have hdigit := Nat.isDigit_of_mem_toDigits (by decide) (by decide)
      (show c ∈ Nat.toDigits 10 n by simp [h])
    constructor <;> rintro rfl <;> simp at hdigit
  have hvalue := digitsValue_toDigits n
  unfold parseInt64
  generalize Nat.toDigits 10 n = cs at hsign hvalue
  split
  · exact absurd rfl (hsign _ _ rfl).1
  · exact absurd rfl (hsign _ _ rfl).2
  · simp [hvalue, hrange]

/-- A number is read back as it was written. -/
theorem parseInt64_toString [GoStd] {n : Int} (hlow : minInt64 ≤ n) (hhigh : n ≤ maxInt64) :
    parseInt64 (toString n).toList = .ok n := by
  cases n with
  | ofNat n =>
    have htext : (toString (Int.ofNat n)).toList = Nat.toDigits 10 n := Nat.toList_repr
    rw [htext]
    exact parseInt64_digits n hhigh
  | negSucc n =>
    have htext : (toString (Int.negSucc n)).toList = '-' :: Nat.toDigits 10 (n + 1) := by
      rw [Int.toString_eq_repr, Int.repr, String.toList_append, Nat.toList_repr]
      rfl
    have hneg : -((n + 1 : Nat) : Int) = Int.negSucc n := rfl
    have hrange : ¬ (Int.negSucc n < minInt64 ∨ maxInt64 < Int.negSucc n) := by omega
    simp only [htext, parseInt64, digitsValue_toDigits, Option.bind_eq_bind, Option.bind_some,
      Option.pure_def, Option.map_some, hneg, if_neg hrange]

theorem parseInt64_bounds [GoStd] {cs : List Char} {n : Int} (h : parseInt64 cs = .ok n) :
    minInt64 ≤ n ∧ n ≤ maxInt64 := by
  simp only [parseInt64] at h
  split at h
  · cases h
  · split at h
    · cases h
    · rename_i hrange
      cases h
      rw [not_or, not_lt, not_lt] at hrange
      exact hrange

theorem mem_toString {n : Int} {c : Char} (h : c ∈ (toString n).toList) :
    c.isDigit = true ∨ c = '-' := by
  have hdigits : ∀ m : Nat, c ∈ Nat.toDigits 10 m → c.isDigit = true := fun m hm =>
    Nat.isDigit_of_mem_toDigits (by decide) (by decide) hm
  cases n with
  | ofNat n => exact .inl (hdigits n (by simpa [toString, Int.repr] using h))
  | negSucc n =>
    have hcons : c = '-' ∨ c ∈ Nat.toDigits 10 (n + 1) := by
      simpa [toString, Int.repr] using h
    exact hcons.symm.imp_left (hdigits (n + 1))

theorem isSpace_of_isDigit {c : Char} (h : c.isDigit = true) : isSpace c = false := by
  have hrange : 48 ≤ c.toNat ∧ c.toNat ≤ 57 := by
    simpa [Char.isDigit, UInt32.le_iff_toNat_le] using h
  have hall : ∀ n < 58, 48 ≤ n → isSpace (Char.ofNat n) = false := by decide
  rw [← Char.ofNat_toNat c]
  exact hall c.toNat (by omega) hrange.1

theorem toString_ne_nil (n : Int) : (toString n).toList ≠ [] := by
  cases n with
  | ofNat n => simp [toString, Int.repr]
  | negSucc n => simp [toString, Int.repr]

/-- A number neither begins nor ends with a space. -/
theorem trimmed_toString (n : Int) : Trimmed (toString n).toList := by
  have hall : ∀ c ∈ (toString n).toList, isSpace c = false := by
    intro c hc
    rcases mem_toString hc with hdigit | rfl
    · exact isSpace_of_isDigit hdigit
    · decide
  exact ⟨fun c hc => hall c (List.mem_of_mem_head? hc),
    fun c hc => hall c (List.mem_of_getLast? hc)⟩

theorem wrapInt64_bounds (n : Int) : minInt64 ≤ wrapInt64 n ∧ wrapInt64 n ≤ maxInt64 := by
  unfold wrapInt64 minInt64 maxInt64
  omega

theorem wrapInt64_of_bounds {n : Int} (hlow : minInt64 ≤ n) (hhigh : n ≤ maxInt64) :
    wrapInt64 n = n := by
  unfold wrapInt64
  unfold minInt64 maxInt64 at *
  omega

/-- Past the largest number it goes on with the smallest one. -/
theorem wrapInt64_of_gt {n : Int} (hlow : maxInt64 < n) (hhigh : n ≤ 2 * maxInt64) :
    wrapInt64 n = n - 18446744073709551616 := by
  unfold wrapInt64 minInt64
  unfold maxInt64 at hlow hhigh
  omega

theorem wrapInt64_neg {n : Int} (hlow : maxInt64 < n) (hhigh : n ≤ 2 * maxInt64) :
    wrapInt64 n < 0 := by
  rw [wrapInt64_of_gt hlow hhigh]
  unfold maxInt64 at hhigh
  omega

/-! ## Parts with a separator between them -/

theorem toList_bar : "|".toList = ['|'] := rfl

theorem toList_comma : ",".toList = [','] := rfl

theorem toList_semicolon : ";".toList = [';'] := rfl

theorem toList_equals : "=".toList = ['='] := rfl

/-- The first separator splits a text in one way only. -/
theorem append_sep_inj {sep : Char} {a b r r' : List Char} (ha : sep ∉ a) (hb : sep ∉ b)
    (h : a ++ sep :: r = b ++ sep :: r') : a = b ∧ r = r' := by
  have hcut : some (a, r) = some (b, r') := by
    rw [← cutChar_append r ha, ← cutChar_append r' hb, h]
  simpa using hcut

theorem append_text_inj {s : String} {sep : Char} (hs : s.toList = [sep]) {a a' b b' : String}
    (ha : sep ∉ a.toList) (ha' : sep ∉ a'.toList) (h : a ++ s ++ b = a' ++ s ++ b') :
    a = a' ∧ b = b' := by
  have hlist := congrArg String.toList h
  simp only [String.toList_append, hs, List.append_assoc, List.singleton_append] at hlist
  obtain ⟨h₁, h₂⟩ := append_sep_inj ha ha' hlist
  exact ⟨String.toList_inj.mp h₁, String.toList_inj.mp h₂⟩

/-- Joined parts without the separator can be told apart. -/
theorem join_injective {s : String} {sep : Char} (hs : s.toList = [sep]) {xs ys : List String}
    (hx : ∀ x ∈ xs, sep ∉ x.toList) (hy : ∀ y ∈ ys, sep ∉ y.toList) (hxs : xs ≠ [])
    (hys : ys ≠ []) (h : join xs s = join ys s) : xs = ys := by
  have hsplit (zs : List String) (hz : ∀ z ∈ zs, sep ∉ z.toList) (hzs : zs ≠ []) :
      (join zs s).toList.splitOn sep = zs.map String.toList := by
    rw [join, String.toList_intercalate, hs]
    refine List.splitOn_intercalate sep ?_ (by simpa using hzs)
    intro l hl
    obtain ⟨z, hmem, rfl⟩ := List.mem_map.mp hl
    exact hz z hmem
  have hlists : xs.map String.toList = ys.map String.toList := by
    rw [← hsplit xs hx hxs, ← hsplit ys hy hys, h]
  exact List.map_injective_iff.mpr (fun s t => String.toList_inj.mp) hlists

theorem join_cons {x : String} {xs : List String} (hxs : xs ≠ []) (s : String) :
    join (x :: xs) s = x ++ s ++ join xs s := by
  cases xs with
  | nil => exact absurd rfl hxs
  | cons y ys => exact String.intercalate_cons_cons

/-- Two parts next to each other are as good as one. -/
theorem join_merge (front : List String) (x y : String) (xs : List String) (s : String) :
    join (front ++ (x ++ s ++ y) :: xs) s = join (front ++ x :: y :: xs) s := by
  induction front with
  | nil =>
    by_cases hxs : xs = []
    · subst hxs
      simp [join]
    · rw [List.nil_append, List.nil_append, join_cons hxs, join_cons (List.cons_ne_nil y xs),
        join_cons hxs]
      simp only [String.append_assoc]
  | cons z front ih =>
    rw [List.cons_append, List.cons_append, join_cons (by simp), join_cons (by simp), ih]

theorem append_ne_left (a b s : String) (hs : s ≠ "") : a ++ s ++ b ≠ a := by
  intro h
  have hlist := congrArg String.toList h
  simp [hs] at hlist

/-- A text with the separator in it has a first and a second half. -/
theorem exists_halves {s text : String} {sep : Char} (hs : s.toList = [sep])
    (h : sep ∈ text.toList) : ∃ a b, text = a ++ s ++ b := by
  obtain ⟨l, r, hlist⟩ := List.append_of_mem h
  refine ⟨String.ofList l, String.ofList r, String.toList_inj.mp ?_⟩
  simp [hlist, hs]

theorem join_eq_empty {xs : List String} {s : String} (h : join xs s = "") :
    ∀ x ∈ xs, x = "" := by
  induction xs with
  | nil => simp
  | cons x xs ih =>
    cases xs with
    | nil => simpa [join] using h
    | cons y ys =>
      rw [join_cons (by simp), String.append_eq_empty_iff, String.append_eq_empty_iff] at h
      intro z hz
      rcases List.mem_cons.mp hz with rfl | hz
      · exact h.1.1
      · exact ih h.2 z hz

/-- The first character of joined parts, the first of which is empty only
if the separator follows. -/
theorem head?_join_cons {x s : String} {sep d : Char} (hs : s.toList = [sep]) (hd : d ≠ sep)
    (hx : x.toList.head? ≠ some d) (xs : List String) :
    (join (x :: xs) s).toList.head? ≠ some d := by
  by_cases hxs : xs = []
  · subst hxs
    simpa [join] using hx
  · rw [join_cons hxs, String.toList_append, String.toList_append, hs]
    cases hlist : x.toList with
    | nil => simpa using Ne.symm hd
    | cons c cs => simpa [hlist] using hx

/-! ## Parts that begin with a mark

A separator that the parts may contain as well can still be found, if
what follows it shows that a part begins there. -/

section Marks

variable {sep : Char} {marks : List (List Char)}

/-- Nothing, or the separator and a mark. -/
def Follows (sep : Char) (marks : List (List Char)) (rest : List Char) : Prop :=
  rest = [] ∨ ∃ m ∈ marks, (sep :: m) <+: rest

/-- Nowhere in the text does a mark follow the separator. -/
def Unmarked (sep : Char) (marks : List (List Char)) (x : List Char) : Prop :=
  ∀ m ∈ marks, ¬(sep :: m) <:+: x

instance (sep : Char) (marks : List (List Char)) (x : List Char) :
    Decidable (Unmarked sep marks x) :=
  inferInstanceAs (Decidable (∀ m ∈ marks, _))

/-- A text that goes on with `z` has a mark in it, or what follows `z` is
the rest of a mark. -/
theorem eq_nil_of_unmarked (hsep : ∀ m ∈ marks, sep ∉ m) {x z rest rest' : List Char}
    (hx : Unmarked sep marks (x ++ z)) (hrest : Follows sep marks rest)
    (hrest' : Follows sep marks rest') (h : rest = z ++ rest') : z = [] := by
  by_contra hz
  rcases hrest with rfl | ⟨m, hm, hpre⟩
  · exact hz (List.append_eq_nil_iff.mp h.symm).1
  · have hzpre : z <+: rest := ⟨rest', h.symm⟩
    rcases List.prefix_or_prefix_of_prefix hpre hzpre with hin | hshort
    · exact hx m hm (hin.isInfix.trans (List.suffix_append x z).isInfix)
    · -- the mark goes on where `z` ends, with a separator
      obtain ⟨m', hm'⟩ := hshort
      have hrest'pre : m' <+: rest' := by
        rw [← hm', h] at hpre
        exact (List.prefix_append_right_inj z).mp hpre
      have hsub : m' ⊆ m := by
        cases z with
        | nil => exact absurd rfl hz
        | cons c z =>
          rw [← (List.cons.inj hm').2]
          exact List.subset_append_right z m'
      cases m' with
      | nil =>
        rw [List.append_nil] at hm'
        exact hx m hm (hm' ▸ (List.suffix_append x z).isInfix)
      | cons c m' =>
        have hc : c = sep := by
          rcases hrest' with rfl | ⟨n, -, hn⟩
          · cases List.prefix_nil.mp hrest'pre
          · obtain ⟨r, rfl⟩ := hrest'pre
            obtain ⟨r', hr'⟩ := hn
            exact (List.cons.inj hr').1.symm
        exact hsep m hm (hsub (hc ▸ List.mem_cons_self))

/-- A text is cut in one way before its first mark. -/
theorem append_marked_inj (hsep : ∀ m ∈ marks, sep ∉ m) {x y rest rest' : List Char}
    (hx : Unmarked sep marks x) (hy : Unmarked sep marks y) (hrest : Follows sep marks rest)
    (hrest' : Follows sep marks rest') (h : x ++ rest = y ++ rest') : x = y ∧ rest = rest' := by
  rcases List.append_eq_append_iff.mp h with ⟨z, rfl, hz⟩ | ⟨z, rfl, hz⟩
  · obtain rfl := eq_nil_of_unmarked hsep hy hrest hrest' hz
    exact ⟨(List.append_nil x).symm, hz⟩
  · obtain rfl := eq_nil_of_unmarked hsep hx hrest' hrest hz
    exact ⟨List.append_nil y, hz.symm⟩

/-- What `join` writes behind a part. -/
def joinedRest (s : String) (xs : List String) : List Char :=
  if xs = [] then [] else s.toList ++ (join xs s).toList

theorem toList_join_cons (x : String) (xs : List String) (s : String) :
    (join (x :: xs) s).toList = x.toList ++ joinedRest s xs := by
  unfold joinedRest
  split
  · rename_i hxs
    simp [hxs, join]
  · rename_i hxs
    rw [join_cons hxs, String.toList_append, String.toList_append, List.append_assoc]

theorem follows_joinedRest {s : String} (hs : s.toList = [sep]) {xs : List String}
    (hxs : ∀ x ∈ xs, ∃ m ∈ marks, m <+: x.toList) : Follows sep marks (joinedRest s xs) := by
  cases xs with
  | nil => exact .inl rfl
  | cons x xs =>
    obtain ⟨m, hm, hpre⟩ := hxs x List.mem_cons_self
    refine .inr ⟨m, hm, ?_⟩
    rw [joinedRest, if_neg (List.cons_ne_nil x xs), hs, toList_join_cons]
    exact (List.prefix_cons_inj sep).mpr (hpre.trans (List.prefix_append ..))

theorem joinedRest_inj {s : String} (hs : s.toList = [sep]) {xs ys : List String}
    (h : joinedRest s xs = joinedRest s ys) : (xs = [] ∧ ys = []) ∨
      (xs ≠ [] ∧ ys ≠ [] ∧ join xs s = join ys s) := by
  unfold joinedRest at h
  rw [hs] at h
  by_cases hxs : xs = [] <;> by_cases hys : ys = []
  · exact .inl ⟨hxs, hys⟩
  · rw [if_pos hxs, if_neg hys] at h
    cases h
  · rw [if_neg hxs, if_pos hys] at h
    cases h
  · rw [if_neg hxs, if_neg hys] at h
    exact .inr ⟨hxs, hys, String.toList_inj.mp (List.cons.inj h).2⟩

/-- **Joined parts can be told apart** if every part but the first begins
with a mark and no part has a mark behind a separator. The last one may,
if its first character shows that it is the last. -/
theorem join_marked_injective {s : String} {d : Char} (hs : s.toList = [sep]) (hd : d ≠ sep)
    (hsep : ∀ m ∈ marks, sep ∉ m) {xs ys es fs : List String}
    (hx : ∀ x ∈ xs, Unmarked sep marks x.toList ∧ x.toList.head? ≠ some d)
    (hy : ∀ y ∈ ys, Unmarked sep marks y.toList ∧ y.toList.head? ≠ some d)
    (hxm : ∀ x ∈ (xs ++ es).tail, ∃ m ∈ marks, m <+: x.toList)
    (hym : ∀ y ∈ (ys ++ fs).tail, ∃ m ∈ marks, m <+: y.toList)
    (hes : es = [] ∨ ∃ e, es = [e] ∧ e.toList.head? = some d)
    (hfs : fs = [] ∨ ∃ f, fs = [f] ∧ f.toList.head? = some d) (hne : xs ++ es ≠ [])
    (hne' : ys ++ fs ≠ []) (h : join (xs ++ es) s = join (ys ++ fs) s) : xs = ys ∧ es = fs := by
  -- a text that begins with `d` is the ending alone
  have halone {x e : String} {zs : List String} (hx : x.toList.head? ≠ some d)
      (he : e.toList.head? = some d) (heq : join (x :: zs) s = join [e] s) : False := by
    refine head?_join_cons hs hd hx zs ?_
    rw [heq]
    simpa [join] using he
  induction xs generalizing ys with
  | nil =>
    obtain ⟨e, rfl, he⟩ := hes.resolve_left (by simpa using hne)
    cases ys with
    | nil =>
      obtain ⟨f, rfl, -⟩ := hfs.resolve_left (by simpa using hne')
      simpa [join] using h
    | cons y ys => exact (halone (hy y (by simp)).2 he h.symm).elim
  | cons x xs ih =>
    cases ys with
    | nil =>
      obtain ⟨f, rfl, hf⟩ := hfs.resolve_left (by simpa using hne')
      exact (halone (hx x (by simp)).2 hf h).elim
    | cons y ys =>
      simp only [List.cons_append, List.tail_cons] at h hxm hym
      have htext := congrArg String.toList h
      rw [toList_join_cons, toList_join_cons] at htext
      obtain ⟨hhead, hrest⟩ := append_marked_inj hsep (hx x (by simp)).1 (hy y (by simp)).1
        (follows_joinedRest hs hxm) (follows_joinedRest hs hym) htext
      obtain rfl := String.toList_inj.mp hhead
      rcases joinedRest_inj hs hrest with ⟨hnil, hnil'⟩ | ⟨hcons, hcons', hjoin⟩
      · simp only [List.append_eq_nil_iff] at hnil hnil'
        obtain ⟨⟨rfl, rfl⟩, rfl, rfl⟩ := And.intro hnil hnil'
        exact ⟨rfl, rfl⟩
      · obtain ⟨rfl, rfl⟩ := ih (fun z hz => hx z (by simp [hz]))
          (fun z hz => hy z (by simp [hz])) (fun z hz => hxm z (List.mem_of_mem_tail hz))
          (fun z hz => hym z (List.mem_of_mem_tail hz)) hcons hcons' hjoin
        exact ⟨rfl, rfl⟩

end Marks

/-! ## Lines -/

/-- A text without a line feed. -/
def OneLine (s : String) : Prop :=
  '\n' ∉ s.toList

instance (s : String) : Decidable (OneLine s) :=
  inferInstanceAs (Decidable (_ ∉ _))

theorem oneLine_append {s t : String} (hs : OneLine s) (ht : OneLine t) : OneLine (s ++ t) := by
  simp only [OneLine, String.toList_append, List.mem_append, not_or]
  exact ⟨hs, ht⟩

/-- Texts with the same number of lines and the same ending differ in
their lines. -/
theorem join_lines_injective {xs ys : List String} {ending : String}
    (hx : ∀ x ∈ xs, OneLine x) (hy : ∀ y ∈ ys, OneLine y) (hlen : xs.length = ys.length)
    (h : join (xs ++ [ending]) "\n" = join (ys ++ [ending]) "\n") : xs = ys := by
  induction xs generalizing ys with
  | nil => exact (List.length_eq_zero_iff.mp hlen.symm).symm
  | cons x xs ih =>
    cases ys with
    | nil => simp at hlen
    | cons y ys =>
      have hsplit (l : List String) (z : String) : join (z :: l ++ [ending]) "\n" =
          z ++ "\n" ++ join (l ++ [ending]) "\n" := join_cons (by simp) "\n"
      rw [hsplit, hsplit, ← String.toList_inj] at h
      simp only [String.toList_append, List.append_assoc] at h
      change x.toList ++ '\n' :: (join (xs ++ [ending]) "\n").toList =
        y.toList ++ '\n' :: (join (ys ++ [ending]) "\n").toList at h
      obtain ⟨hxy, hrest⟩ := append_sep_inj (hx x (by simp)) (hy y (by simp)) h
      rw [String.toList_inj] at hxy hrest
      rw [hxy, ih (fun z hz => hx z (by simp [hz])) (fun z hz => hy z (by simp [hz]))
        (by simpa using hlen) hrest]

/-! ## Digests of texts -/

theorem bytesOf_injective : Function.Injective bytesOf := by
  intro s t h
  refine String.toByteArray_inj.mp ?_
  have hdata : s.toByteArray.data = t.toByteArray.data := Array.toList_inj.mp h
  exact ByteArray.ext hdata

theorem hexDigit_inj : ∀ m < 16, ∀ n < 16, hexDigit m = hexDigit n → m = n := by decide

theorem hexEncode_injective : Function.Injective hexEncode := by
  intro bs cs h
  have hlist := String.ofList_injective h
  clear h
  induction bs generalizing cs with
  | nil =>
    cases cs with
    | nil => rfl
    | cons c cs => simp at hlist
  | cons b bs ih =>
    cases cs with
    | nil => simp at hlist
    | cons c cs =>
      simp only [List.flatMap_cons, List.cons_append, List.nil_append, List.cons.injEq] at hlist
      obtain ⟨hhigh, hlow, hrest⟩ := hlist
      have hb := b.toNat_lt
      have hc := c.toNat_lt
      have h1 := hexDigit_inj _ (by omega) _ (by omega) hhigh
      have h2 := hexDigit_inj _ (by omega) _ (by omega) hlow
      have hbyte : b = c := UInt8.toNat_inj.mp (by omega)
      rw [hbyte, ih hrest]

/-- With an injective digest, texts of one hash are equal. -/
theorem hashStr_injective [GoStd] (hsha : Function.Injective GoStd.sha256) :
    Function.Injective hashStr :=
  hexEncode_injective.comp (hsha.comp bytesOf_injective)

/-! ## Bytes of a text -/

theorem bytesOf_eq_flatMap (s : String) : bytesOf s = s.toList.flatMap String.utf8EncodeChar := by
  rw [bytesOf, ← String.utf8Encode_toList, List.utf8Encode, List.data_toByteArray]

theorem bytesOf_append (s t : String) : bytesOf (s ++ t) = bytesOf s ++ bytesOf t := by
  simp only [bytesOf_eq_flatMap, String.toList_append, List.flatMap_append]

/-- A number is a byte a character. -/
theorem mem_bytesOf_toString {n : Int} {b : UInt8} (h : b ∈ bytesOf (toString n)) :
    b = 45 ∨ 48 ≤ b ∧ b ≤ 57 := by
  rw [bytesOf_eq_flatMap] at h
  obtain ⟨c, hc, hb⟩ := List.mem_flatMap.mp h
  rcases mem_toString hc with hdigit | rfl
  · have hrange : 48 ≤ c.toNat ∧ c.toNat ≤ 57 := by
      simpa [Char.isDigit, UInt32.le_iff_toNat_le] using hdigit
    have hall : ∀ d : Fin 10, ∀ b ∈ String.utf8EncodeChar (Char.ofNat (48 + d)),
        48 ≤ b ∧ b ≤ 57 := by decide +kernel
    rw [← Char.ofNat_toNat c, ← Nat.add_sub_cancel' hrange.1] at hb
    exact .inr (hall ⟨c.toNat - 48, by omega⟩ b hb)
  · exact .inl (List.mem_singleton.mp hb)

/-- Different numbers have different texts. -/
theorem toString_int_injective : Function.Injective (toString : Int → String) := by
  have htext (n : Nat) : (toString (Int.ofNat n)).toList = Nat.toDigits 10 n := Nat.toList_repr
  have hneg (n : Nat) : (toString (Int.negSucc n)).toList = '-' :: Nat.toDigits 10 (n + 1) := by
    rw [Int.toString_eq_repr, Int.repr, String.toList_append, Nat.toList_repr]
    rfl
  have hdigits {m n : Nat} (h : Nat.toDigits 10 m = Nat.toDigits 10 n) : m = n := by
    have hvalue := digitsValue_toDigits m
    rw [h, digitsValue_toDigits] at hvalue
    exact (Option.some.inj hvalue).symm
  have hsign (m n : Nat) : Nat.toDigits 10 m ≠ '-' :: Nat.toDigits 10 (n + 1) := by
    intro h
    have hminus : '-' ∈ Nat.toDigits 10 m := h ▸ List.mem_cons_self
    have hdigit := Nat.isDigit_of_mem_toDigits (by decide) (by decide) hminus
    cases hdigit
  intro a b h
  have hlist := congrArg String.toList h
  cases a with
  | ofNat m =>
    cases b with
    | ofNat n =>
      rw [htext, htext] at hlist
      rw [hdigits hlist]
    | negSucc n =>
      rw [htext, hneg] at hlist
      exact absurd hlist (hsign m n)
  | negSucc m =>
    cases b with
    | ofNat n =>
      rw [htext, hneg] at hlist
      exact absurd hlist.symm (hsign n m)
    | negSucc n =>
      rw [hneg, hneg] at hlist
      have hmn := hdigits (List.cons.inj hlist).2
      rw [Nat.succ.inj hmn]

/-- The characters of a hexadecimal text. -/
theorem mem_hexEncode {bs : List UInt8} {c : Char} (h : c ∈ (hexEncode bs).toList) :
    ∃ n < 16, c = hexDigit n := by
  rw [hexEncode, String.toList_ofList] at h
  obtain ⟨b, -, hc⟩ := List.mem_flatMap.mp h
  have hb := b.toNat_lt
  simp only [List.mem_cons, List.not_mem_nil, or_false] at hc
  rcases hc with rfl | rfl
  · exact ⟨b.toNat / 16, by omega, rfl⟩
  · exact ⟨b.toNat % 16, by omega, rfl⟩

theorem hexEncode_eq_nil {bs : List UInt8} : (hexEncode bs).toList = [] ↔ bs = [] := by
  rw [hexEncode, String.toList_ofList]
  cases bs with
  | nil => simp
  | cons b bs => simp

/-- Lists with a mark after the first part, which has none. -/
theorem append_mark_inj {α : Type} {mark : α} {a b r r' : List α} (ha : mark ∉ a) (hb : mark ∉ b)
    (h : a ++ mark :: r = b ++ mark :: r') : a = b ∧ r = r' := by
  induction a generalizing b with
  | nil =>
    cases b with
    | nil => exact ⟨rfl, (List.cons.inj h).2⟩
    | cons y b => exact absurd (List.mem_cons.mpr (.inl (List.cons.inj h).1)) hb
  | cons x a ih =>
    cases b with
    | nil => exact absurd (List.mem_cons.mpr (.inl (List.cons.inj h).1.symm)) ha
    | cons y b =>
      obtain ⟨rfl, hrest⟩ := List.cons.inj h
      obtain ⟨rfl, rfl⟩ := ih (fun hm => ha (.tail _ hm)) (fun hm => hb (.tail _ hm)) hrest
      exact ⟨rfl, rfl⟩

/-! ## Texts without spaces -/

theorem isSpace_hexDigit {n : Nat} (h : n < 16) : isSpace (hexDigit n) = false := by
  have hall : ∀ m : Fin 16, isSpace (hexDigit m.val) = false := by decide
  exact hall ⟨n, h⟩

theorem trimSpace_eq_self {s : String} (h : ∀ c ∈ s.toList, isSpace c = false) :
    trimSpace s = s := by
  rw [trimSpace, trimSpaceList_eq_self, String.ofList_toList]
  exact ⟨fun c hc => h c (List.mem_of_head? hc), fun c hc => h c (List.mem_of_getLast? hc)⟩

theorem hasPrefix_append (start s : String) : hasPrefix (start ++ s) start = true := by
  rw [hasPrefix, String.toList_append]
  exact List.isPrefixOf_iff_prefix.mpr (List.prefix_append _ _)

theorem trimPrefix_append (start s : String) : trimPrefix (start ++ s) start = s := by
  rw [trimPrefix, if_pos (hasPrefix_append start s), String.toList_append, List.drop_left,
    String.ofList_toList]

end Scintx.Lib
