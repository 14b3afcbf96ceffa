/-
Scintx.Lib.Float64 — the floating-point numbers a program compares and
averages.

A finite number is its rational value, so comparisons are exact. The
exact result of an operation is rounded to the nearest number of 53
binary digits (`nearest`), and a result beyond the exponents is infinite
(`round`). A product is rounded before it is added to a sum: a compiler
that fuses the two rounds once less. There is one zero.

What the special values do to comparisons and sums is kept, since that
is where code goes wrong: every comparison with `nan` is false, so a
running maximum that STARTS at `nan` never moves.
-/
import Mathlib.Algebra.Order.Field.Rat
import Mathlib.Data.Int.Log
import Mathlib.Data.Rat.Floor
import Mathlib.Tactic.Linarith

namespace Scintx.Lib

inductive Float64 where
  | fin (q : ℚ)
  | inf (neg : Bool)
  | nan
  deriving DecidableEq

namespace Float64

/-- `a <= b`. -/
def le : Float64 → Float64 → Bool
  | fin a, fin b => decide (a ≤ b)
  | fin _, inf n => !n
  | inf m, fin _ => m
  | inf m, inf n => m || !n
  | _, _ => false

/-- `a < b`. -/
def lt : Float64 → Float64 → Bool
  | fin a, fin b => decide (a < b)
  | fin _, inf n => !n
  | inf m, fin _ => m
  | inf m, inf n => m && !n
  | _, _ => false

/-- Neither infinite nor NaN. -/
def isFinite : Float64 → Bool
  | fin _ => true
  | _ => false

def zero : Float64 := fin 0

def one : Float64 := fin 1

/-- The nearest integer, ties to even. -/
def roundHalfEven (q : ℚ) : ℤ :=
  let f := q.floor
  let r := q - f
  if r < 1 / 2 then f else if 1 / 2 < r then f + 1 else if f % 2 = 0 then f else f + 1

/-- The distance of the numbers around `q` that have 53 binary digits;
below the smallest exponent it stays the same. -/
def ulp (q : ℚ) : ℚ := 2 ^ max (Int.log 2 |q| - 52) (-1074)

def nearest (q : ℚ) : ℚ := roundHalfEven (q / ulp q) * ulp q

/-- Where the exponents end. -/
def overflow : ℚ := 2 ^ 1024

/-- The result of an operation whose exact result is `q`. -/
def round (q : ℚ) : Float64 :=
  if |nearest q| < overflow then fin (nearest q) else inf (decide (q < 0))

def ofNat (n : Nat) : Float64 := round n

def add : Float64 → Float64 → Float64
  | fin a, fin b => round (a + b)
  | fin _, inf n => inf n
  | inf m, fin _ => inf m
  | inf m, inf n => if m = n then inf m else nan
  | _, _ => nan

def mul : Float64 → Float64 → Float64
  | fin a, fin b => round (a * b)
  | fin a, inf n => if a = 0 then nan else inf (n ^^ decide (a < 0))
  | inf m, fin b => if b = 0 then nan else inf (m ^^ decide (b < 0))
  | inf m, inf n => inf (m ^^ n)
  | _, _ => nan

def div : Float64 → Float64 → Float64
  | fin a, fin b =>
    if b = 0 then (if a = 0 then nan else inf (decide (a < 0))) else round (a / b)
  | fin _, inf _ => fin 0
  | inf m, fin b => inf (m ^^ decide (b < 0))
  | _, _ => nan

/-- `fmt.Sprintf("%.1f", x)`. -/
def fixed1 : Float64 → String
  | fin q =>
    let tenths := (roundHalfEven (|q| * 10)).toNat
    (if q < 0 then "-" else "") ++ toString (tenths / 10) ++ "." ++ toString (tenths % 10)
  | inf neg => if neg then "-Inf" else "+Inf"
  | nan => "NaN"

theorem le_refl {a : Float64} (h : a ≠ nan) : le a a = true := by
  cases a <;> simp_all [le]

theorem le_trans {a b c : Float64} (hab : le a b = true) (hbc : le b c = true) :
    le a c = true := by
  cases a <;> cases b <;> cases c <;> simp_all [le] <;> first | linarith | grind

theorem le_antisymm {a b : Float64} (hab : le a b = true) (hba : le b a = true) : a = b := by
  cases a <;> cases b <;> simp_all [le] <;> first | linarith | grind

theorem ne_nan_of_le {a b : Float64} (h : le a b = true) : a ≠ nan ∧ b ≠ nan := by
  cases a <;> cases b <;> simp_all [le]

/-- Between numbers, "not greater" is "at most". -/
theorem lt_eq_false {a b : Float64} (ha : a ≠ nan) (hb : b ≠ nan) :
    lt a b = false ↔ le b a = true := by
  cases a <;> cases b <;> simp_all [le, lt]; grind

theorem le_of_lt {a b : Float64} (h : lt a b = true) : le a b = true := by
  cases a <;> cases b <;> simp_all [le, lt]; linarith

theorem lt_or_le {a b : Float64} (ha : a ≠ nan) (hb : b ≠ nan) :
    lt a b = true ∨ le b a = true := by
  cases h : lt a b
  · exact .inr ((lt_eq_false ha hb).mp h)
  · exact .inl rfl

/-- What is not below a threshold stays so when it grows; a threshold
that is not a number is never above anything. -/
theorem lt_eq_false_of_le {a b c : Float64} (hab : le a b = true) (h : lt a c = false) :
    lt b c = false := by
  by_cases hc : c = nan
  · subst hc
    cases b <;> rfl
  · obtain ⟨ha, hb⟩ := ne_nan_of_le hab
    exact (lt_eq_false hb hc).mpr (le_trans ((lt_eq_false ha hc).mp h) hab)

/-! ## The top of a list of scores

`IsTop l t`: `t` is the largest element of `l`, or zero if there is none.
For elements that are at least zero this is what a loop leaves behind
that starts at zero and takes every element not below the current one. -/

def IsTop (l : List Float64) (t : Float64) : Prop :=
  (l = [] ∧ t = zero) ∨ (t ∈ l ∧ ∀ x ∈ l, le x t = true)

theorem IsTop.unique {l : List Float64} {t t' : Float64} (h : IsTop l t) (h' : IsTop l t') :
    t = t' := by
  rcases h with ⟨rfl, rfl⟩ | ⟨hmem, hall⟩
  · rcases h' with ⟨-, rfl⟩ | ⟨hmem', -⟩
    · rfl
    · simp at hmem'
  · rcases h' with ⟨rfl, -⟩ | ⟨hmem', hall'⟩
    · simp at hmem
    · exact le_antisymm (hall' t hmem) (hall t' hmem')

/-- A list and a part of it that dominates it have the same top. -/
theorem IsTop.of_dominated {l l' : List Float64} {t : Float64} (hsub : ∀ x ∈ l', x ∈ l)
    (hdom : ∀ x ∈ l, ∃ y ∈ l', le x y = true) (h : IsTop l' t) : IsTop l t := by
  rcases h with ⟨rfl, rfl⟩ | ⟨hmem, hall⟩
  · left
    refine ⟨List.eq_nil_iff_forall_not_mem.mpr fun x hx => ?_, rfl⟩
    obtain ⟨y, hy, -⟩ := hdom x hx
    simp at hy
  · right
    refine ⟨hsub t hmem, fun x hx => ?_⟩
    obtain ⟨y, hy, hxy⟩ := hdom x hx
    exact le_trans hxy (hall y hy)

/-! ## Sums with special values -/

section Sum

variable {α : Type} {l : List α}

/-- The value of a finite number; the special values have none. -/
def toRat : Float64 → ℚ
  | fin q => q
  | _ => 0

theorem fin_toRat {x : Float64} (h : x.isFinite = true) : fin x.toRat = x := by
  cases x with
  | fin q => rfl
  | _ => cases h

theorem ulp_pos (q : ℚ) : 0 < ulp q := zpow_pos two_pos _

theorem roundHalfEven_zero : roundHalfEven 0 = 0 := by decide +kernel

theorem roundHalfEven_nonneg {q : ℚ} (hq : 0 ≤ q) : 0 ≤ roundHalfEven q := by
  have hfloor : 0 ≤ q.floor := Int.floor_nonneg.mpr hq
  unfold roundHalfEven
  simp only
  split_ifs <;> omega

theorem nearest_zero : nearest 0 = 0 := by
  rw [nearest, zero_div, roundHalfEven_zero, Int.cast_zero, zero_mul]

theorem nearest_nonneg {q : ℚ} (hq : 0 ≤ q) : 0 ≤ nearest q := by
  have hulp := ulp_pos q
  have hround := roundHalfEven_nonneg (div_nonneg hq hulp.le)
  exact mul_nonneg (by exact_mod_cast hround) hulp.le

theorem overflow_pos : 0 < overflow := pow_pos two_pos _

theorem round_zero : round 0 = zero := by
  rw [round, nearest_zero, abs_zero, if_pos overflow_pos]
  rfl

theorem nonneg_round {q : ℚ} (hq : 0 ≤ q) : le zero (round q) = true := by
  unfold round
  split
  · exact decide_eq_true (nearest_nonneg hq)
  · simp [le, zero, not_lt.mpr hq]

theorem zero_add_zero : zero.add zero = zero := by
  change round (0 + 0) = zero
  rw [add_zero, round_zero]

theorem foldl_add_zero {value : α → Float64} (h : ∀ e ∈ l, value e = zero) :
    l.foldl (fun s e => s.add (value e)) zero = zero := by
  induction l with
  | nil => rfl
  | cons e l ih =>
    rw [List.foldl_cons, h e (by simp), zero_add_zero]
    exact ih fun x hx => h x (by simp [hx])

/-- A sum is finite only if both parts are. -/
theorem isFinite_of_add {a b : Float64} (h : (a.add b).isFinite = true) :
    a.isFinite = true ∧ b.isFinite = true := by
  cases a with
  | inf m =>
    cases b with
    | inf n => by_cases hmn : m = n <;> simp [add, isFinite, hmn] at h
    | _ => cases h
  | nan => cases b <;> cases h
  | fin p =>
    cases b with
    | fin q => exact ⟨rfl, rfl⟩
    | _ => cases h

theorem isFinite_of_foldl_add {value : α → Float64} {s : Float64}
    (h : (l.foldl (fun s e => s.add (value e)) s).isFinite = true) :
    s.isFinite = true ∧ ∀ e ∈ l, (value e).isFinite = true := by
  induction l generalizing s with
  | nil => exact ⟨h, fun e he => by cases he⟩
  | cons e l ih =>
    obtain ⟨hadd, hrest⟩ := ih h
    obtain ⟨hs, he⟩ := isFinite_of_add hadd
    exact ⟨hs, List.forall_mem_cons.mpr ⟨he, hrest⟩⟩

theorem isFinite_of_mul {a b : Float64} (ha : a.isFinite = true)
    (h : (a.mul b).isFinite = true) : b.isFinite = true := by
  cases a with
  | fin q =>
    cases b with
    | fin r => rfl
    | inf n => by_cases hq : q = 0 <;> simp [mul, isFinite, hq] at h
    | nan => cases h
  | _ => cases ha

theorem div_eq_nan {a b : Float64} (ha : a.isFinite = false) (hb : b.isFinite = false) :
    a.div b = nan := by
  cases a <;> cases b <;> simp only [div, isFinite, reduceCtorEq] at ha hb ⊢

theorem nonneg_add {a b : Float64} (ha : le zero a = true) (hb : le zero b = true) :
    le zero (a.add b) = true := by
  cases a with
  | fin p =>
    cases b with
    | fin q => exact nonneg_round (add_nonneg (of_decide_eq_true ha) (of_decide_eq_true hb))
    | _ => exact hb
  | inf m => cases b <;> simp_all [le, zero, add]
  | nan => cases ha

theorem nonneg_foldl_add {value : α → Float64} (h : ∀ e ∈ l, le zero (value e) = true)
    {s : Float64} (hs : le zero s = true) :
    le zero (l.foldl (fun s e => s.add (value e)) s) = true := by
  induction l generalizing s with
  | nil => exact hs
  | cons e l ih =>
    exact ih (fun x hx => h x (by simp [hx])) (nonneg_add hs (h e (by simp)))

/-- The only nonnegative number that is not finite is above zero. -/
theorem lt_zero_of_not_isFinite {a : Float64} (h : le zero a = true) (hf : a.isFinite = false) :
    lt zero a = true := by
  cases a <;> simp_all [le, lt, zero, isFinite]

theorem nonneg_toRat {a : Float64} (h : le zero a = true) : 0 ≤ a.toRat := by
  cases a <;> simp_all [le, zero, toRat]

end Sum

end Float64

end Scintx.Lib
