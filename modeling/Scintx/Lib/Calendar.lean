/-
Scintx.Lib.Calendar — instants as dates, and the order of the texts that
`time.RFC3339Nano` makes of them.

An instant is a number of nanoseconds since the start of year 1. The date
is computed as package `time` computes it: 400, 100, 4 and 1 year cycles
are cut off in turn (`yearDay`), then the month is guessed and corrected
(`monthDay`). Dates come in the order of days (`date_lt`), so the texts
up to the seconds, which have a fixed width, come in the order of seconds
(`secondsText_lt_iff`).

What follows the seconds has no fixed width. The zeros at the end of the
fraction are dropped, and the point with them if nothing is left, and a
`Z` follows, which comes after every digit and after the point. Texts of
one second are therefore in the order of their instants exactly if
neither fraction begins with the other (`rfc3339Nano_order_iff`).
-/
import Mathlib.Data.List.DropRight
import Mathlib.Data.String.Basic
import Mathlib.Tactic.Linarith

namespace Scintx.Lib.Calendar

/-! ## Dates -/

/-- The days from the start of year 1 to the start of a year. -/
def daysBefore (year : Int) : Int :=
  365 * (year - 1) + (year - 1) / 4 - (year - 1) / 100 + (year - 1) / 400

/-- The year of a day and the day of that year, from 0. -/
def yearDay (day : Int) : Int × Int :=
  let n400 := day / 146097
  let d := day - 146097 * n400
  -- the last day of the last cycle would count as a cycle of its own
  let n100 := d / 36524 - d / 36524 / 4
  let d := d - 36524 * n100
  let n4 := d / 1461
  let d := d - 1461 * n4
  let n1 := d / 365 - d / 365 / 4
  (1 + 400 * n400 + 100 * n100 + 4 * n4 + n1, d - 365 * n1)

/-- The cycles of a day; only a leap year has a day 365. -/
theorem yearDay_cycles (day : Int) :
    ∃ a b c e r, yearDay day = (1 + 400 * a + 100 * b + 4 * c + e, r) ∧
      day = 146097 * a + 36524 * b + 1461 * c + 365 * e + r ∧ (0 ≤ b ∧ b ≤ 3) ∧
      (0 ≤ c ∧ c ≤ 24) ∧ (0 ≤ e ∧ e ≤ 3) ∧ 0 ≤ r ∧
      (r < 365 ∨ r = 365 ∧ e = 3 ∧ (c < 24 ∨ b = 3)) := by
  obtain ⟨d, hd⟩ : ∃ d, d = day - 146097 * (day / 146097) := ⟨_, rfl⟩
  obtain ⟨b, hb⟩ : ∃ b, b = d / 36524 - d / 36524 / 4 := ⟨_, rfl⟩
  obtain ⟨d', hd'⟩ : ∃ d', d' = d - 36524 * b := ⟨_, rfl⟩
  obtain ⟨c, hc⟩ : ∃ c, c = d' / 1461 := ⟨_, rfl⟩
  obtain ⟨d'', hd''⟩ : ∃ d'', d'' = d' - 1461 * c := ⟨_, rfl⟩
  obtain ⟨e, he⟩ : ∃ e, e = d'' / 365 - d'' / 365 / 4 := ⟨_, rfl⟩
  refine ⟨day / 146097, b, c, e, d'' - 365 * e, ?_, ?_, ?_, ?_, ?_, ?_, ?_⟩
  · simp only [yearDay, ← hd, ← hb, ← hd', ← hc, ← hd'', ← he]
  · omega
  · omega
  · omega
  · omega
  · omega
  · omega

theorem daysBefore_cycles {a b c e : Int} (hb : 0 ≤ b ∧ b ≤ 3) (hc : 0 ≤ c ∧ c ≤ 24)
    (he : 0 ≤ e ∧ e ≤ 3) :
    daysBefore (1 + 400 * a + 100 * b + 4 * c + e) =
      146097 * a + 36524 * b + 1461 * c + 365 * e := by
  unfold daysBefore
  omega

def isLeap (year : Int) : Bool :=
  year % 4 = 0 && (year % 100 ≠ 0 || year % 400 = 0)

def yearLength (year : Int) : Int := if isLeap year then 366 else 365

theorem yearLength_cases (year : Int) :
    (year % 4 = 0 ∧ (year % 100 ≠ 0 ∨ year % 400 = 0)) ∧ yearLength year = 366 ∨
      ¬(year % 4 = 0 ∧ (year % 100 ≠ 0 ∨ year % 400 = 0)) ∧ yearLength year = 365 := by
  simp only [yearLength, isLeap, Bool.and_eq_true, Bool.or_eq_true, decide_eq_true_eq]
  split
  · exact .inl ⟨‹_›, rfl⟩
  · exact .inr ⟨‹_›, rfl⟩

theorem daysBefore_lt {y z : Int} (h : y < z) : daysBefore y + yearLength y ≤ daysBefore z := by
  unfold daysBefore
  rcases yearLength_cases y with ⟨hleap, hlength⟩ | ⟨hleap, hlength⟩
  · omega
  · omega

/-- The day is in the year. -/
theorem yearDay_spec (day : Int) :
    daysBefore (yearDay day).1 + (yearDay day).2 = day ∧ 0 ≤ (yearDay day).2 ∧
      (yearDay day).2 < yearLength (yearDay day).1 := by
  obtain ⟨a, b, c, e, r, hyear, hday, hb, hc, he, hr, hleap⟩ := yearDay_cycles day
  rw [hyear]
  refine ⟨?_, hr, ?_⟩
  · rw [daysBefore_cycles hb hc he]
    exact hday.symm
  · change r < yearLength (1 + 400 * a + 100 * b + 4 * c + e)
    rcases yearLength_cases (1 + 400 * a + 100 * b + 4 * c + e) with ⟨h, hlength⟩ | ⟨h, hlength⟩
    · omega
    · omega

theorem yearDay_lt {day day' : Int} (h : day < day') :
    (yearDay day).1 < (yearDay day').1 ∨
      (yearDay day).1 = (yearDay day').1 ∧ (yearDay day).2 < (yearDay day').2 := by
  obtain ⟨hday, hlow, hhigh⟩ := yearDay_spec day
  obtain ⟨hday', hlow', hhigh'⟩ := yearDay_spec day'
  rcases lt_trichotomy (yearDay day).1 (yearDay day').1 with hlt | heq | hgt
  · exact .inl hlt
  · refine .inr ⟨heq, ?_⟩
    rw [heq] at hday
    omega
  · -- the later day would be in an earlier year
    have hyears := daysBefore_lt hgt
    omega

/-- The days of a common year before each month. -/
def daysBeforeMonth : List Nat := [0, 31, 59, 90, 120, 151, 181, 212, 243, 273, 304, 334, 365]

/-- The month, from 1, and its day, from 1. -/
def monthDay (leap : Bool) (yday : Nat) : Nat × Nat :=
  if leap ∧ yday = 59 then (2, 29)
  else
    let day := if leap ∧ 59 < yday then yday - 1 else yday
    -- as if every month had 31 days
    let month := day / 31
    let next := daysBeforeMonth.getD (month + 1) 0
    if next ≤ day then (month + 2, day - next + 1)
    else (month + 1, day - daysBeforeMonth.getD month 0 + 1)

theorem monthDay_bounds :
    ∀ leap, ∀ n < 366, (monthDay leap n).1 < 100 ∧ (monthDay leap n).2 < 100 := by
  decide +kernel

theorem monthDay_succ :
    ∀ leap, ∀ n < if leap then 365 else 364,
      (monthDay leap n).1 < (monthDay leap (n + 1)).1 ∨
        (monthDay leap n).1 = (monthDay leap (n + 1)).1 ∧
          (monthDay leap n).2 < (monthDay leap (n + 1)).2 := by
  decide +kernel

/-- Within a year, dates come in the order of days. -/
theorem monthDay_lt {leap : Bool} {m n : Nat} (h : m < n) (hn : n < if leap then 366 else 365) :
    (monthDay leap m).1 < (monthDay leap n).1 ∨
      (monthDay leap m).1 = (monthDay leap n).1 ∧ (monthDay leap m).2 < (monthDay leap n).2 := by
  induction n, h using Nat.le_induction with
  | base => exact monthDay_succ leap m (by cases leap <;> simp at hn ⊢ <;> omega)
  | succ n hmn ih =>
    have hstep := monthDay_succ leap n (by cases leap <;> simp at hn ⊢ <;> omega)
    have hprev := ih (by omega)
    omega

/-! ## Texts in order -/

section Order

variable {a a' b b' : List Char}

theorem append_lt_append_iff (h : a.length = a'.length) :
    a ++ b < a' ++ b' ↔ a < a' ∨ a = a' ∧ b < b' := by
  induction a generalizing a' with
  | nil =>
    obtain rfl := List.length_eq_zero_iff.mp h.symm
    simp
  | cons c a ih =>
    cases a' with
    | nil => simp at h
    | cons c' a' =>
      have hrest := @ih a' (by simpa using h)
      simp only [List.cons_append, List.cons_lt_cons_iff, hrest, List.cons.injEq]
      tauto

end Order

/-- A number in decimal, with leading zeros up to the width. -/
def pad : Nat → Nat → List Char
  | 0, _ => []
  | w + 1, n => pad w (n / 10) ++ [Nat.digitChar (n % 10)]

theorem length_pad (w n : Nat) : (pad w n).length = w := by
  induction w generalizing n with
  | zero => rfl
  | succ w ih => rw [pad, List.length_append, ih]; rfl

theorem digitChar_lt_iff : ∀ m < 10, ∀ n < 10, Nat.digitChar m < Nat.digitChar n ↔ m < n := by
  decide

/-- Numbers of one width come in their order. -/
theorem pad_lt_iff {w m n : Nat} (hm : m < 10 ^ w) (hn : n < 10 ^ w) :
    pad w m < pad w n ↔ m < n := by
  induction w generalizing m n with
  | zero =>
    rw [pow_zero] at hm hn
    have : m = n := by omega
    simp [pad, this]
  | succ w ih =>
    rw [pow_succ] at hm hn
    have hlt := @ih (m / 10) (n / 10) (by omega) (by omega)
    have hgt := @ih (n / 10) (m / 10) (by omega) (by omega)
    have heq : pad w (m / 10) = pad w (n / 10) ↔ m / 10 = n / 10 := by
      constructor
      · intro heq
        rw [heq] at hlt hgt
        have hnlt := hlt.not.mp (lt_irrefl _)
        have hngt := hgt.not.mp (lt_irrefl _)
        omega
      · intro heq
        rw [heq]
    have hdigit := digitChar_lt_iff (m % 10) (by omega) (n % 10) (by omega)
    rw [pad, pad, append_lt_append_iff (by rw [length_pad, length_pad]), hlt, heq,
      List.cons_lt_cons_iff, hdigit]
    simp only [List.not_lt_nil, and_false, or_false]
    omega

theorem pad_inj {w m n : Nat} (hm : m < 10 ^ w) (hn : n < 10 ^ w) (h : pad w m = pad w n) :
    m = n := by
  have hlt := pad_lt_iff hm hn
  have hgt := pad_lt_iff hn hm
  rw [h] at hlt hgt
  have hnlt := hlt.not.mp (lt_irrefl _)
  have hngt := hgt.not.mp (lt_irrefl _)
  omega

theorem pad_append_lt_iff {w m n : Nat} (hm : m < 10 ^ w) (hn : n < 10 ^ w) {x y : List Char} :
    pad w m ++ x < pad w n ++ y ↔ m < n ∨ m = n ∧ x < y := by
  rw [append_lt_append_iff (by rw [length_pad, length_pad]), pad_lt_iff hm hn]
  constructor
  · rintro (h | ⟨h, hxy⟩)
    · exact .inl h
    · exact .inr ⟨pad_inj hm hn h, hxy⟩
  · rintro (h | ⟨rfl, hxy⟩)
    · exact .inl h
    · exact .inr ⟨rfl, hxy⟩

/-! ## The text of an instant -/

/-- `appendInt(year, 4)`. -/
def yearText (year : Int) : List Char :=
  (if year < 0 then ['-'] else []) ++
    if year.natAbs < 10000 then pad 4 year.natAbs else (Nat.repr year.natAbs).toList

def yearOf (seconds : Int) : Int := (yearDay (seconds / 86400)).1

def dateOf (seconds : Int) : Nat × Nat :=
  monthDay (isLeap (yearOf seconds)) (yearDay (seconds / 86400)).2.toNat

def secondOfDay (seconds : Int) : Nat := (seconds % 86400).toNat

/-- The text up to the seconds. -/
def secondsText (seconds : Int) : List Char :=
  let (month, day) := dateOf seconds
  let s := secondOfDay seconds
  yearText (yearOf seconds) ++ '-' :: (pad 2 month ++ '-' :: (pad 2 day ++
    'T' :: (pad 2 (s / 3600) ++ ':' :: (pad 2 (s / 60 % 60) ++ ':' :: pad 2 (s % 60)))))

/-- The years whose numbers have four digits. -/
def FourDigits (seconds : Int) : Prop := 0 ≤ yearOf seconds ∧ yearOf seconds ≤ 9999

instance (seconds : Int) : Decidable (FourDigits seconds) :=
  inferInstanceAs (Decidable (0 ≤ yearOf seconds ∧ yearOf seconds ≤ 9999))

theorem FourDigits.yearText_eq {seconds : Int} (h : FourDigits seconds) :
    yearText (yearOf seconds) = pad 4 (yearOf seconds).toNat := by
  obtain ⟨hlow, hhigh⟩ := h
  have habs : (yearOf seconds).natAbs = (yearOf seconds).toNat := by omega
  rw [yearText, if_neg (by omega), if_pos (by omega), habs]
  rfl

theorem dateOf_bounds (seconds : Int) : (dateOf seconds).1 < 100 ∧ (dateOf seconds).2 < 100 := by
  obtain ⟨-, hlow, hhigh⟩ := yearDay_spec (seconds / 86400)
  refine monthDay_bounds _ _ ?_
  rcases yearLength_cases (yearDay (seconds / 86400)).1 with ⟨-, h⟩ | ⟨-, h⟩
  · omega
  · omega

/-- Seconds in order: by year, month, day and time of day. -/
theorem date_lt {s s' : Int} (h : s < s') :
    yearOf s < yearOf s' ∨ yearOf s = yearOf s' ∧ ((dateOf s).1 < (dateOf s').1 ∨
      (dateOf s).1 = (dateOf s').1 ∧ ((dateOf s).2 < (dateOf s').2 ∨
        (dateOf s).2 = (dateOf s').2 ∧ secondOfDay s < secondOfDay s')) := by
  by_cases hday : s / 86400 = s' / 86400
  · have hyear : yearOf s = yearOf s' := by rw [yearOf, yearOf, hday]
    have hdate : dateOf s = dateOf s' := by rw [dateOf, dateOf, hday, hyear]
    have htime : secondOfDay s < secondOfDay s' := by
      unfold secondOfDay
      omega
    rw [hdate]
    exact .inr ⟨hyear, .inr ⟨rfl, .inr ⟨rfl, htime⟩⟩⟩
  · rcases yearDay_lt (show s / 86400 < s' / 86400 by omega) with hyear | ⟨hyear, hlt⟩
    · exact .inl hyear
    · refine .inr ⟨hyear, ?_⟩
      obtain ⟨-, hlow, -⟩ := yearDay_spec (s / 86400)
      obtain ⟨-, hlow', hhigh'⟩ := yearDay_spec (s' / 86400)
      have hbound : (yearDay (s' / 86400)).2.toNat <
          if isLeap (yearDay (s' / 86400)).1 then 366 else 365 := by
        unfold yearLength at hhigh'
        split
        · rename_i hleap
          rw [if_pos hleap] at hhigh'
          omega
        · rename_i hleap
          rw [if_neg hleap] at hhigh'
          omega
      have hmonth := monthDay_lt
        (show (yearDay (s / 86400)).2.toNat < (yearDay (s' / 86400)).2.toNat by omega) hbound
      unfold dateOf yearOf
      rw [hyear]
      rcases hmonth with hmonth | ⟨hmonth, hdayLt⟩
      · exact .inl hmonth
      · exact .inr ⟨hmonth, .inl hdayLt⟩

theorem secondsText_lt {s s' : Int} (hs : FourDigits s) (hs' : FourDigits s') (h : s < s')
    (x y : List Char) : secondsText s ++ x < secondsText s' ++ y := by
  have hdate := date_lt h
  obtain ⟨hm, hd⟩ := dateOf_bounds s
  obtain ⟨hm', hd'⟩ := dateOf_bounds s'
  have htime : secondOfDay s < 86400 ∧ secondOfDay s' < 86400 := by
    unfold secondOfDay
    omega
  obtain ⟨hlow, hhigh⟩ := id hs
  obtain ⟨hlow', hhigh'⟩ := id hs'
  have hfield {w m n : Nat} (hm : m < 10 ^ w) (hn : n < 10 ^ w) (c : Char) (x y : List Char) :
      pad w m ++ c :: x < pad w n ++ c :: y ↔ m < n ∨ m = n ∧ x < y := by
    rw [pad_append_lt_iff hm hn, List.cons_lt_cons_self]
  simp only [secondsText, hs.yearText_eq, hs'.yearText_eq, List.append_assoc, List.cons_append]
  rw [hfield (by omega) (by omega), hfield hm hm', hfield hd hd', hfield (by omega) (by omega),
    hfield (by omega) (by omega), pad_append_lt_iff (by omega) (by omega)]
  omega

/-! ## Fractions of a second -/

/-- The digits of the nanoseconds without the zeros at the end. -/
def fraction (nanos : Nat) : List Char := (pad 9 nanos).rdropWhile (· = '0')

def fractionText (nanos : Nat) : List Char :=
  if fraction nanos = [] then [] else '.' :: fraction nanos

def seconds (t : Int) : Int := t / 1000000000

def nanos (t : Int) : Nat := (t % 1000000000).toNat

/-- `t.UTC().Format(time.RFC3339Nano)`. -/
def rfc3339Nano (t : Int) : String :=
  String.ofList (secondsText (seconds t) ++ (fractionText (nanos t) ++ ['Z']))

theorem mem_pad {w n : Nat} {c : Char} (h : c ∈ pad w n) : '0' ≤ c ∧ c ≤ '9' := by
  induction w generalizing n with
  | zero => cases h
  | succ w ih =>
    rw [pad, List.mem_append, List.mem_singleton] at h
    rcases h with h | rfl
    · exact ih h
    · have hdigit : ∀ m < 10, '0' ≤ Nat.digitChar m ∧ Nat.digitChar m ≤ '9' := by decide
      exact hdigit _ (Nat.mod_lt _ (by decide))

/-- The dropped zeros. -/
theorem pad_eq_fraction (n : Nat) : ∃ k, pad 9 n = fraction n ++ List.replicate k '0' := by
  refine ⟨((pad 9 n).rtakeWhile (· = '0')).length, ?_⟩
  have hzeros : (pad 9 n).rtakeWhile (· = '0') =
      List.replicate ((pad 9 n).rtakeWhile (· = '0')).length '0' := by
    refine List.eq_replicate_of_mem ?_
    intro c hc
    simpa using List.mem_rtakeWhile_imp hc
  rw [← hzeros]
  exact List.rdropWhile_append_rtakeWhile.symm

/-- Two lists, neither of which begins with the other, differ at some
point, and that point decides. -/
theorem lt_of_not_prefix {l l' : List Char} (h : ¬l <+: l') (h' : ¬l' <+: l)
    (x y x' y' : List Char) : l ++ x < l' ++ y ↔ l ++ x' < l' ++ y' := by
  induction l generalizing l' with
  | nil => exact absurd (List.nil_prefix) h
  | cons c l ih =>
    cases l' with
    | nil => exact absurd (List.nil_prefix) h'
    | cons c' l' =>
      simp only [List.cons_append, List.cons_lt_cons_iff]
      by_cases hc : c = c'
      · subst hc
        have hrest := @ih l' (by simpa using h) (by simpa using h')
        simp [hrest]
      · simp [hc]

theorem not_lt_zeros {l : List Char} (h : ∀ c ∈ l, '0' ≤ c) :
    ¬l < List.replicate l.length '0' := by
  induction l with
  | nil => simp
  | cons c l ih =>
    have hc := h c List.mem_cons_self
    have hrest := ih fun c hc => h c (List.mem_cons_of_mem _ hc)
    rw [List.length_cons, List.replicate_succ, List.cons_lt_cons_iff]
    rintro (hlt | ⟨-, hlt⟩)
    · exact absurd hlt (not_lt.mpr hc)
    · exact hrest hlt

section Fractions

variable {n n' : Nat}

/-- Fractions that differ at some digit are in order. -/
theorem fractionText_lt_iff (hn : n < 1000000000) (hn' : n' < 1000000000)
    (h : ¬fraction n <+: fraction n') (h' : ¬fraction n' <+: fraction n) :
    fractionText n ++ ['Z'] < fractionText n' ++ ['Z'] ↔ n < n' := by
  have hne : fraction n ≠ [] := by
    intro hempty
    rw [hempty] at h
    exact h List.nil_prefix
  have hne' : fraction n' ≠ [] := by
    intro hempty
    rw [hempty] at h'
    exact h' List.nil_prefix
  obtain ⟨k, hk⟩ := pad_eq_fraction n
  obtain ⟨k', hk'⟩ := pad_eq_fraction n'
  rw [← pad_lt_iff (show n < 10 ^ 9 from hn) (show n' < 10 ^ 9 from hn'), hk, hk',
    fractionText, fractionText, if_neg hne, if_neg hne', List.cons_append, List.cons_append,
    List.cons_lt_cons_self]
  exact lt_of_not_prefix h h' _ _ _ _

/-- A fraction that another one begins with is smaller, and its text comes
later: a digit stands where it has a `Z`, or a point. -/
theorem fractionText_of_prefix (hn : n < 1000000000) (hn' : n' < 1000000000) (hne : n ≠ n')
    (h : fraction n <+: fraction n') :
    n < n' ∧ fractionText n' ++ ['Z'] < fractionText n ++ ['Z'] := by
  obtain ⟨r, hr⟩ := h
  obtain ⟨k, hk⟩ := pad_eq_fraction n
  obtain ⟨k', hk'⟩ := pad_eq_fraction n'
  rw [← hr] at hk'
  have hdigits : ∀ c ∈ r ++ List.replicate k' '0', '0' ≤ c ∧ c ≤ '9' := by
    intro c hc
    refine @mem_pad 9 n' c ?_
    rw [hk', List.append_assoc]
    exact List.mem_append_right _ hc
  have hlength : (r ++ List.replicate k' '0').length = k := by
    have hlen := length_pad 9 n
    have hlen' := length_pad 9 n'
    rw [hk, List.length_append, List.length_replicate] at hlen
    rw [hk', List.append_assoc, List.length_append] at hlen'
    omega
  refine ⟨?_, ?_⟩
  · have hge : ¬n' < n := by
      rw [← pad_lt_iff (show n' < 10 ^ 9 from hn') (show n < 10 ^ 9 from hn), hk, hk',
        List.append_assoc, append_lt_append_iff rfl, ← hlength]
      rintro (hlt | ⟨-, hlt⟩)
      · exact lt_irrefl _ hlt
      · exact not_lt_zeros (fun c hc => (hdigits c hc).1) hlt
    omega
  · cases r with
    | nil =>
      -- the same digits, so the same number
      rw [List.append_nil] at hr
      rw [List.nil_append, List.length_replicate] at hlength
      rw [List.append_nil, hlength, ← hk] at hk'
      exact absurd (pad_inj (show n < 10 ^ 9 from hn) (show n' < 10 ^ 9 from hn') hk'.symm) hne
    | cons c r =>
      have hc : c ≤ '9' := (hdigits c (by simp)).2
      have hcz : c < 'Z' := lt_of_le_of_lt hc (by decide)
      have hne' : fraction n' ≠ [] := by simp [← hr]
      rw [fractionText, if_neg hne', fractionText]
      split
      · rw [List.cons_append, List.nil_append, List.cons_lt_cons_iff]
        exact .inl (by decide)
      · rw [← hr, List.cons_append, List.cons_append, List.cons_lt_cons_self, List.append_assoc,
          append_lt_append_iff rfl, List.cons_append, List.cons_lt_cons_iff]
        exact .inr ⟨rfl, .inl hcz⟩

end Fractions

/-! ## The order of instants and of their texts -/

/-- Neither fraction begins with the other, if the seconds are the same. -/
def TextOrdered (t t' : Int) : Prop :=
  t = t' ∨ seconds t ≠ seconds t' ∨
    ¬fraction (nanos t) <+: fraction (nanos t') ∧ ¬fraction (nanos t') <+: fraction (nanos t)

instance (t t' : Int) : Decidable (TextOrdered t t') := inferInstanceAs (Decidable (_ ∨ _))

theorem TextOrdered.symm {t t' : Int} (h : TextOrdered t t') : TextOrdered t' t := by
  rcases h with rfl | h | ⟨h, h'⟩
  · exact .inl rfl
  · exact .inr (.inl (Ne.symm h))
  · exact .inr (.inr ⟨h', h⟩)

theorem rfc3339Nano_lt_of_seconds {t t' : Int} (h : FourDigits (seconds t))
    (h' : FourDigits (seconds t')) (hlt : seconds t < seconds t') :
    rfc3339Nano t < rfc3339Nano t' := by
  rw [String.lt_iff_toList_lt, rfc3339Nano, rfc3339Nano, String.toList_ofList,
    String.toList_ofList]
  exact secondsText_lt h h' hlt _ _

theorem rfc3339Nano_lt_iff_of_same {t t' : Int} (h : seconds t = seconds t') :
    rfc3339Nano t < rfc3339Nano t' ↔
      fractionText (nanos t) ++ ['Z'] < fractionText (nanos t') ++ ['Z'] := by
  rw [String.lt_iff_toList_lt, rfc3339Nano, rfc3339Nano, String.toList_ofList,
    String.toList_ofList, h, append_lt_append_iff rfl]
  simp

theorem nanos_lt (t : Int) : nanos t < 1000000000 := by
  unfold nanos
  omega

/-- Texts in the order of their instants. -/
theorem TextOrdered.lt_iff {t t' : Int} (h : FourDigits (seconds t))
    (h' : FourDigits (seconds t')) (hord : TextOrdered t t') :
    rfc3339Nano t < rfc3339Nano t' ↔ t < t' := by
  by_cases hsec : seconds t = seconds t'
  · rcases hord with rfl | hne | ⟨hp, hp'⟩
    · simp
    · exact absurd hsec hne
    · rw [rfc3339Nano_lt_iff_of_same hsec, fractionText_lt_iff (nanos_lt t) (nanos_lt t') hp hp']
      unfold nanos
      unfold seconds at hsec
      omega
  · unfold seconds at hsec
    rcases lt_or_gt_of_ne hsec with hlt | hgt
    · exact iff_of_true (rfc3339Nano_lt_of_seconds h h' hlt) (by omega)
    · refine iff_of_false ?_ (by omega)
      exact lt_asymm (rfc3339Nano_lt_of_seconds h' h hgt)

/-- **Texts compare as their instants do exactly if neither fraction of
one second begins with the other.** -/
theorem rfc3339Nano_order_iff {t t' : Int} (h : FourDigits (seconds t))
    (h' : FourDigits (seconds t')) :
    ((rfc3339Nano t < rfc3339Nano t' ↔ t < t') ∧ (rfc3339Nano t' < rfc3339Nano t ↔ t' < t)) ↔
      TextOrdered t t' := by
  constructor
  · rintro ⟨hlt, hgt⟩
    by_contra hord
    simp only [TextOrdered, not_or, not_and_or, not_not] at hord
    obtain ⟨hne, hsec, hstart⟩ := hord
    have hnanos : nanos t ≠ nanos t' := by
      unfold nanos
      unfold seconds at hsec
      omega
    have hinstants : (nanos t < nanos t' ↔ t < t') ∧ (nanos t' < nanos t ↔ t' < t) := by
      unfold nanos
      unfold seconds at hsec
      omega
    rcases hstart with hp | hp
    · obtain ⟨hn, htext⟩ := fractionText_of_prefix (nanos_lt t) (nanos_lt t') hnanos hp
      have hback := hgt.mp ((rfc3339Nano_lt_iff_of_same hsec.symm).mpr htext)
      have hthere := hinstants.1.mp hn
      omega
    · obtain ⟨hn, htext⟩ := fractionText_of_prefix (nanos_lt t') (nanos_lt t) hnanos.symm hp
      have hback := hlt.mp ((rfc3339Nano_lt_iff_of_same hsec).mpr htext)
      have hthere := hinstants.2.mp hn
      omega
  · intro hord
    exact ⟨hord.lt_iff h h', hord.symm.lt_iff h' h⟩

example : rfc3339Nano 63844806896500000000 = "2024-02-29T12:34:56.5Z" := by decide +kernel

example : rfc3339Nano (-1000000000) = "0000-12-31T23:59:59Z" := by decide +kernel

end Scintx.Lib.Calendar
