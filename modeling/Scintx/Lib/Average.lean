/-
Scintx.Lib.Average — how far a rounded average is from the exact one.

An operation is off by at most `eps` of its exact result, or by `eta`
where that is very small (`abs_nearest_sub_le`). `Near e x y` carries
such an error along: a loop that adds is near the exact sum
(`near_foldl_add`), and a rounded sum over a rounded weight is near the
exact quotient (`near_quotient`). The exact average lies in every
interval its values lie in, so the rounded one is at most `slack` outside
(`within_mean`, `within_weighted`).

The conditions are on what is averaged, `InRange`: not too many values,
and no sum that overflows or is lost below the exponents. The constants
are chosen for short proofs and are NOT the best ones.
-/
import Mathlib.Algebra.Order.BigOperators.Group.List
import Mathlib.Tactic.FieldSimp
import Scintx.Lib.Float64

namespace Scintx.Lib.Float64

/-! ## One rounding -/

/-- Half the distance of the numbers above 1. -/
def eps : ℚ := 1 / 2 ^ 53

/-- Half the distance of the smallest numbers. -/
def eta : ℚ := 1 / 2 ^ 1075

theorem eps_pos : 0 < eps := by decide +kernel

theorem eta_pos : 0 < eta := by decide +kernel

theorem abs_roundHalfEven_sub_le (q : ℚ) : |(roundHalfEven q : ℚ) - q| ≤ 1 / 2 := by
  have hlow : ((q.floor : ℤ) : ℚ) ≤ q := Int.floor_le q
  have hhigh : q < ((q.floor : ℤ) : ℚ) + 1 := Int.lt_floor_add_one q
  rw [abs_le]
  simp only [roundHalfEven]
  split_ifs <;> push_cast <;> constructor <;> linarith

theorem half_ulp_le {q : ℚ} (hq : q ≠ 0) : ulp q / 2 ≤ eps * |q| + eta := by
  have hlog : (2 : ℚ) ^ Int.log 2 |q| ≤ |q| := by
    exact_mod_cast Int.zpow_log_le_self (R := ℚ) one_lt_two (abs_pos.mpr hq)
  have heps := mul_nonneg eps_pos.le (abs_nonneg q)
  unfold ulp
  rcases max_cases (Int.log 2 |q| - 52) (-1074) with ⟨h, -⟩ | ⟨h, -⟩
  · rw [h, zpow_sub₀ two_ne_zero]
    have hscale : (2 : ℚ) ^ Int.log 2 |q| / 2 ^ (52 : ℤ) / 2 = eps * 2 ^ Int.log 2 |q| := by
      have heps : ((2 : ℚ) ^ (52 : ℤ) * 2)⁻¹ = eps := by decide +kernel
      rw [div_div, div_eq_inv_mul, heps]
    rw [hscale]
    have := mul_le_mul_of_nonneg_left hlog eps_pos.le
    linarith [eta_pos]
  · rw [h]
    have hsmall : (2 : ℚ) ^ (-1074 : ℤ) / 2 = eta := by decide +kernel
    linarith

theorem abs_nearest_sub_le (q : ℚ) : |nearest q - q| ≤ eps * |q| + eta := by
  by_cases hq : q = 0
  · rw [hq, nearest_zero, sub_zero, abs_zero, mul_zero, zero_add]
    exact eta_pos.le
  have hulp := ulp_pos q
  have hscaled : nearest q - q = (roundHalfEven (q / ulp q) - q / ulp q) * ulp q := by
    rw [sub_mul, div_mul_cancel₀ q hulp.ne', nearest]
  calc |nearest q - q| = |(roundHalfEven (q / ulp q) : ℚ) - q / ulp q| * ulp q := by
        rw [hscaled, abs_mul, abs_of_pos hulp]
    _ ≤ 1 / 2 * ulp q := mul_le_mul_of_nonneg_right (abs_roundHalfEven_sub_le _) hulp.le
    _ = ulp q / 2 := by ring
    _ ≤ eps * |q| + eta := half_ulp_le hq

/-- `y` is a number that is at most `e` away from `x`. -/
def Near (e x : ℚ) (y : Float64) : Prop := ∃ r, y = fin r ∧ |r - x| ≤ e

theorem Near.mono {e e' x : ℚ} {y : Float64} (h : Near e x y) (hle : e ≤ e') : Near e' x y := by
  obtain ⟨r, hr, herr⟩ := h
  exact ⟨r, hr, herr.trans hle⟩

theorem near_fin (x : ℚ) : Near 0 x (fin x) := ⟨x, rfl, by simp⟩

/-- A result that was off by `e`, rounded. -/
theorem near_round {q x e A : ℚ} (hq : |q - x| ≤ e) (hA : |x| + e ≤ A) (hfits : A ≤ overflow / 2) :
    Near (e + (eps * A + eta)) x (round q) := by
  have hqA : |q| ≤ A := by
    have := abs_add_le (q - x) x
    rw [sub_add_cancel] at this
    linarith
  have herr : |nearest q - q| ≤ eps * A + eta :=
    (abs_nearest_sub_le q).trans (by linarith [mul_le_mul_of_nonneg_left hqA eps_pos.le])
  have hsmall : eps * (overflow / 2) + eta < overflow / 2 := by decide +kernel
  have hlt : |nearest q| < overflow := by
    have := abs_add_le (nearest q - q) q
    rw [sub_add_cancel] at this
    have := mul_le_mul_of_nonneg_left hfits eps_pos.le
    linarith
  refine ⟨nearest q, if_pos hlt, ?_⟩
  have := abs_sub_le (nearest q) q x
  linarith

theorem near_round_self {q A : ℚ} (hA : |q| ≤ A) (hfits : A ≤ overflow / 2) :
    Near (eps * A + eta) q (round q) := by
  have hround := near_round (q := q) (x := q) (e := 0) (by rw [sub_self, abs_zero])
    (by rwa [add_zero]) hfits
  rwa [zero_add] at hround

theorem near_mul {x w : Float64} (hx : x.isFinite = true) (hw : w.isFinite = true) {A : ℚ}
    (hA : |x.toRat * w.toRat| ≤ A) (hfits : A ≤ overflow / 2) :
    Near (eps * A + eta) (x.toRat * w.toRat) (x.mul w) := by
  obtain ⟨r, hr, herr⟩ := near_round_self hA hfits
  refine ⟨r, ?_, herr⟩
  rw [← hr, ← fin_toRat hx, ← fin_toRat hw]
  rfl

theorem Near.add {x y d e A : ℚ} {a b : Float64} (ha : Near d x a) (hb : Near e y b)
    (hA : |x + y| + (d + e) ≤ A) (hfits : A ≤ overflow / 2) :
    Near (d + e + (eps * A + eta)) (x + y) (a.add b) := by
  obtain ⟨r, rfl, hr⟩ := ha
  obtain ⟨s, rfl, hs⟩ := hb
  refine near_round ?_ hA hfits
  rw [add_sub_add_comm]
  exact (abs_add_le _ _).trans (add_le_add hr hs)

/-! ## Sums -/

section Sum

variable {α : Type} {l : List α} {value : α → Float64} {v : α → ℚ} {A d c : ℚ}

/-- At most `n` additions, each of which is off by at most `c`: their
terms are off by `d`, and all magnitudes together are at most `A`. -/
structure SumBudget (n : ℕ) (A d c : ℚ) : Prop where
  step : d + (eps * (A + n * c) + eta) ≤ c
  fits : A + n * c ≤ overflow / 2
  magnitude_nonneg : 0 ≤ A
  step_nonneg : 0 ≤ c

theorem SumBudget.of_le {n : ℕ} (hn : n * eps ≤ 1 / 2) (hd : 0 ≤ d) (hA : 0 ≤ A)
    (hfits : A + n * (2 * (d + eps * A + eta)) ≤ overflow / 2) :
    SumBudget n A d (2 * (d + eps * A + eta)) := by
  have hc : 0 ≤ 2 * (d + eps * A + eta) := by
    have := mul_nonneg eps_pos.le hA
    linarith [eta_pos]
  refine ⟨?_, hfits, hA, hc⟩
  have := mul_le_mul_of_nonneg_right hn hc
  linarith

theorem SumBudget.terms_le {n : ℕ} (hb : SumBudget n A d c) : d ≤ c := by
  have hall : 0 ≤ A + n * c :=
    add_nonneg hb.magnitude_nonneg (mul_nonneg n.cast_nonneg hb.step_nonneg)
  have := mul_nonneg eps_pos.le hall
  linarith [hb.step, eta_pos]

theorem abs_terms_nonneg : ∀ q ∈ l.map fun e => |v e|, 0 ≤ q := by
  intro q hq
  obtain ⟨e, -, rfl⟩ := List.mem_map.mp hq
  exact abs_nonneg _

theorem sum_abs_nonneg : 0 ≤ (l.map fun e => |v e|).sum :=
  List.sum_nonneg abs_terms_nonneg

theorem abs_le_sum_abs {e : α} (he : e ∈ l) : |v e| ≤ (l.map fun e => |v e|).sum :=
  List.single_le_sum abs_terms_nonneg _ (List.mem_map.mpr ⟨e, he, rfl⟩)

/-- The induction is on what is still to be added: `k` terms are in the
sum `x` already, and each has brought in at most `c`. -/
theorem near_foldl_add_from {n : ℕ} (hb : SumBudget n A d c)
    (hv : ∀ e ∈ l, Near d (v e) (value e)) {k : ℕ} {x : ℚ} {s : Float64}
    (hs : Near (k * c) x s) (hlen : k + l.length ≤ n)
    (hA : |x| + (l.map fun e => |v e|).sum ≤ A) :
    Near ((k + l.length : ℕ) * c) (x + (l.map v).sum)
      (l.foldl (fun s e => s.add (value e)) s) := by
  induction l generalizing k x s with
  | nil => simpa using hs
  | cons e l ih =>
    rw [List.length_cons] at hlen
    rw [List.map_cons, List.sum_cons] at hA
    have habs := abs_add_le x (v e)
    have hrest := @sum_abs_nonneg α l v
    have hk : ((k + 1 : ℕ) : ℚ) * c ≤ n * c :=
      mul_le_mul_of_nonneg_right (by exact_mod_cast (by omega : k + 1 ≤ n)) hb.step_nonneg
    push_cast at hk
    have hadd : Near ((k + 1 : ℕ) * c) (x + v e) (s.add (value e)) := by
      have hnear := hs.add (hv e (by simp)) (A := A + n * c) (by linarith [hb.terms_le]) hb.fits
      refine hnear.mono ?_
      push_cast
      linarith [hb.step]
    have htail := ih (fun y hy => hv y (by simp [hy])) hadd (by omega) (by linarith)
    rw [List.foldl_cons, List.map_cons, List.sum_cons, ← add_assoc, List.length_cons]
    rwa [Nat.add_right_comm] at htail

theorem near_foldl_add (hn : l.length * eps ≤ 1 / 2) (hd : 0 ≤ d)
    (hv : ∀ e ∈ l, Near d (v e) (value e)) (hA : (l.map fun e => |v e|).sum ≤ A)
    (hfits : A + l.length * (2 * (d + eps * A + eta)) ≤ overflow / 2) :
    Near (l.length * (2 * (d + eps * A + eta))) (l.map v).sum
      (l.foldl (fun s e => s.add (value e)) zero) := by
  have hb := SumBudget.of_le hn hd (sum_abs_nonneg.trans hA) hfits
  have hstart : Near ((0 : ℕ) * (2 * (d + eps * A + eta))) 0 zero := by
    rw [Nat.cast_zero, zero_mul]
    exact near_fin 0
  have hsum := near_foldl_add_from hb hv hstart (by omega) (by simpa using hA)
  rwa [Nat.zero_add, zero_add] at hsum

end Sum

/-! ## Averages -/

/-- The smallest number that still has 53 digits. -/
def smallest : ℚ := 1 / 2 ^ 1022

/-- `n` scores up to `M` whose weights add up to `W` can be averaged: no
sum of them overflows, and the weights are not too small. -/
structure InRange (n : ℕ) (M W : ℚ) : Prop where
  count : n ≤ 2 ^ 40
  weight_low : n * smallest ≤ W
  weight_high : W ≤ overflow / 8
  score : M ≤ overflow / 8
  product : M * W ≤ overflow / 8

/-- How far a sum of `n` numbers is off that add up to at most `A`. -/
def sumError (n : ℕ) (A : ℚ) : ℚ := n * (2 * (eps * A + eta))

/-- How far the quotient of two such sums is off. -/
def drift (n : ℕ) (M W : ℚ) : ℚ := 16 * (n * eps * M) + 8 * (n * eta / W)

/-- How far a rounded average of them can be off. -/
def slack (n : ℕ) (M W : ℚ) : ℚ := 2 * drift n M W + eta

section Average

variable {n : ℕ} {M W : ℚ}

theorem eps_small : eps ≤ 1 / 8192 := by decide +kernel

theorem count_eps_nonneg (n : ℕ) (hM : 0 ≤ M) : 0 ≤ n * eps * M :=
  mul_nonneg (mul_nonneg n.cast_nonneg eps_pos.le) hM

theorem count_eta_nonneg (n : ℕ) (hW : 0 < W) : 0 ≤ n * eta / W :=
  div_nonneg (mul_nonneg n.cast_nonneg eta_pos.le) hW.le

theorem InRange.count_eps (h : InRange n M W) : n * eps ≤ 1 / 8192 := by
  have hn : (n : ℚ) ≤ 2 ^ 40 := by exact_mod_cast h.count
  have hlimit : (2 ^ 40 : ℚ) * eps = 1 / 8192 := by decide +kernel
  exact hlimit ▸ mul_le_mul_of_nonneg_right hn eps_pos.le

theorem InRange.count_eta (h : InRange n M W) : n * eta ≤ eps * W := by
  have heta : eta = smallest * eps := by decide +kernel
  calc n * eta = n * smallest * eps := by rw [heta, mul_assoc]
    _ ≤ W * eps := mul_le_mul_of_nonneg_right h.weight_low eps_pos.le
    _ = eps * W := mul_comm _ _

theorem InRange.weight_pos (h : InRange n M W) (hn : 0 < n) : 0 < W := by
  have hsmall : 0 < smallest := by decide +kernel
  exact (mul_pos (Nat.cast_pos.mpr hn) hsmall).trans_le h.weight_low

/-- A rounded weight is at least half the exact one. -/
theorem InRange.half_weight (h : InRange n M W) {w : ℚ} (hn : 0 < n)
    (hw : |w - W| ≤ sumError n W) : W / 2 ≤ w := by
  unfold sumError at hw
  have hW := h.weight_pos hn
  have hcount := mul_le_mul_of_nonneg_right h.count_eps hW.le
  have hsmall := mul_le_mul_of_nonneg_right eps_small hW.le
  have := (abs_le.mp hw).1
  linarith [h.count_eta]

theorem drift_ge (hM : 0 ≤ M) (hW : 0 < W) :
    0 ≤ drift n M W ∧ 16 * (n * eps * M) ≤ drift n M W := by
  have hterms := count_eps_nonneg n hM
  have := count_eta_nonneg n hW
  unfold drift
  constructor <;> linarith

/-- The exact quotient of two numbers that are off. -/
theorem InRange.abs_quotient_sub_le (h : InRange n M W) (hn : 0 < n) {S s w : ℚ}
    (hS : |S| ≤ M * W) (hs : |s - S| ≤ 2 * sumError n (M * W)) (hw : |w - W| ≤ sumError n W) :
    |s / w - S / W| ≤ drift n M W := by
  have hW := h.weight_pos hn
  have hhalf := h.half_weight hn hw
  have hwpos : 0 < w := by linarith
  have hMW : 0 ≤ M * W := (abs_nonneg S).trans hS
  have hM : 0 ≤ M := nonneg_of_mul_nonneg_left hMW hW
  have hsplit : s / w - S / W = ((s - S) * W - S * (w - W)) / (w * W) := by
    field_simp
    ring
  -- the error of the weight counts by the size of the quotient
  have hnum : |(s - S) * W - S * (w - W)| ≤
      (2 * sumError n (M * W) + M * sumError n W) * W := by
    have h₁ : |(s - S) * W| ≤ 2 * sumError n (M * W) * W := by
      rw [abs_mul, abs_of_pos hW]
      exact mul_le_mul_of_nonneg_right hs hW.le
    have h₂ : |S * (w - W)| ≤ M * W * sumError n W := by
      rw [abs_mul]
      exact mul_le_mul hS hw (abs_nonneg _) hMW
    have := abs_sub ((s - S) * W) (S * (w - W))
    linarith
  have htotal : 2 * sumError n (M * W) + M * sumError n W ≤ drift n M W * (W / 2) := by
    have hone : M * (eps * W) ≤ n * (M * (eps * W)) := by
      have : (1 : ℚ) ≤ n := by exact_mod_cast hn
      exact le_mul_of_one_le_left (mul_nonneg hM (mul_nonneg eps_pos.le hW.le)) this
    have heta := mul_le_mul_of_nonneg_left h.count_eta hM
    have hcancel : n * eta / W * W = n * eta := div_mul_cancel₀ _ hW.ne'
    unfold sumError drift
    linarith
  rw [hsplit, abs_div, abs_of_pos (mul_pos hwpos hW), div_le_iff₀ (mul_pos hwpos hW)]
  calc |(s - S) * W - S * (w - W)| ≤ (2 * sumError n (M * W) + M * sumError n W) * W := hnum
    _ ≤ drift n M W * (W / 2) * W := mul_le_mul_of_nonneg_right htotal hW.le
    _ ≤ drift n M W * w * W :=
        mul_le_mul_of_nonneg_right (mul_le_mul_of_nonneg_left hhalf (drift_ge hM hW).1) hW.le
    _ = drift n M W * (w * W) := mul_assoc _ _ _

/-- **A rounded sum over a rounded weight.** -/
theorem near_quotient (h : InRange n M W) (hn : 0 < n) {S : ℚ} {a b : Float64}
    (hS : |S| ≤ M * W) (ha : Near (2 * sumError n (M * W)) S a) (hb : Near (sumError n W) W b) :
    lt zero b = true ∧ Near (slack n M W) (S / W) (a.div b) := by
  obtain ⟨s, rfl, hs⟩ := ha
  obtain ⟨w, rfl, hw⟩ := hb
  have hW := h.weight_pos hn
  have hwpos : 0 < w := by linarith [h.half_weight hn hw]
  have hM : 0 ≤ M := nonneg_of_mul_nonneg_left ((abs_nonneg S).trans hS) hW
  have hSW : |S / W| ≤ M := by
    rw [abs_div, abs_of_pos hW]
    exact (div_le_iff₀ hW).mpr hS
  obtain ⟨hdrift, hcount⟩ := drift_ge (n := n) hM hW
  have hfits : M + drift n M W ≤ overflow / 2 := by
    have hlarge : 1 ≤ overflow / 8 := by decide +kernel
    have hetaW : n * eta / W ≤ eps := (div_le_iff₀ hW).mpr h.count_eta
    have := mul_le_mul_of_nonneg_right h.count_eps hM
    unfold drift
    linarith [h.score, eps_small]
  refine ⟨decide_eq_true hwpos, ?_⟩
  have hdiv : (fin s).div (fin w) = round (s / w) := if_neg hwpos.ne'
  rw [hdiv]
  refine (near_round (h.abs_quotient_sub_le hn hS hs hw) (by linarith) hfits).mono ?_
  have hepsM : eps * M ≤ n * eps * M := by
    have hone : (1 : ℚ) ≤ n := by exact_mod_cast hn
    linarith [mul_le_mul_of_nonneg_right hone (mul_nonneg eps_pos.le hM)]
  have hepsDrift := mul_le_mul_of_nonneg_right eps_small hdrift
  unfold slack
  linarith

/-! ## Averages of finite numbers -/

variable {α : Type} {l : List α} {score weight : α → Float64}

/-- A weighted sum, against the sum of the weights. -/
theorem weighted_sum_bounds {score weight : α → ℚ} {lo hi : ℚ} (hw : ∀ e ∈ l, 0 ≤ weight e)
    (hs : ∀ e ∈ l, lo ≤ score e ∧ score e ≤ hi) :
    lo * (l.map weight).sum ≤ (l.map fun e => score e * weight e).sum ∧
      (l.map fun e => score e * weight e).sum ≤ hi * (l.map weight).sum := by
  induction l with
  | nil => simp
  | cons e l ih =>
    obtain ⟨hlow, hhigh⟩ := ih (fun x hx => hw x (by simp [hx])) fun x hx => hs x (by simp [hx])
    have hwe := hw e (by simp)
    obtain ⟨hlo, hhi⟩ := hs e (by simp)
    simp only [List.map_cons, List.sum_cons, mul_add]
    have h₁ := mul_le_mul_of_nonneg_right hlo hwe
    have h₂ := mul_le_mul_of_nonneg_right hhi hwe
    exact ⟨add_le_add h₁ hlow, add_le_add h₂ hhigh⟩

theorem weighted_average_bounds {score weight : α → ℚ} {lo hi : ℚ} (hw : ∀ e ∈ l, 0 ≤ weight e)
    (hpos : 0 < (l.map weight).sum) (hs : ∀ e ∈ l, lo ≤ score e ∧ score e ≤ hi) :
    lo ≤ (l.map fun e => score e * weight e).sum / (l.map weight).sum ∧
      (l.map fun e => score e * weight e).sum / (l.map weight).sum ≤ hi := by
  obtain ⟨hlow, hhigh⟩ := weighted_sum_bounds hw hs
  exact ⟨(le_div_iff₀ hpos).mpr hlow, (div_le_iff₀ hpos).mpr hhigh⟩

/-- The magnitudes of a weighted sum. -/
theorem sum_abs_weighted_le {x w : α → ℚ} (hw : ∀ e ∈ l, 0 ≤ w e) (hM : ∀ e ∈ l, |x e| ≤ M) :
    (l.map fun e => |x e * w e|).sum ≤ M * (l.map w).sum := by
  have habs : (l.map fun e => |x e * w e|) = l.map fun e => |x e| * w e :=
    List.map_congr_left fun e he => by rw [abs_mul, abs_of_nonneg (hw e he)]
  rw [habs]
  exact (weighted_sum_bounds hw fun e he => ⟨abs_nonneg (x e), hM e he⟩).2

/-- `y` is a number at most `δ` outside every interval all the scores lie
in. -/
def Within (δ : ℚ) (scores : List Float64) (y : Float64) : Prop :=
  ∃ q, y = fin q ∧
    ∀ lo hi, (∀ x, fin x ∈ scores → lo ≤ x ∧ x ≤ hi) → lo - δ ≤ q ∧ q ≤ hi + δ

theorem Near.within {δ x : ℚ} {scores : List Float64} {y : Float64} (h : Near δ x y)
    (hx : ∀ lo hi, (∀ x, fin x ∈ scores → lo ≤ x ∧ x ≤ hi) → lo ≤ x ∧ x ≤ hi) :
    Within δ scores y := by
  obtain ⟨q, rfl, hq⟩ := h
  obtain ⟨hlow, hhigh⟩ := abs_le.mp hq
  refine ⟨q, rfl, fun lo hi hbound => ?_⟩
  obtain ⟨hlo, hhi⟩ := hx lo hi hbound
  constructor <;> linarith

theorem near_of_isFinite {x : Float64} (h : x.isFinite = true) : Near 0 x.toRat x := by
  have hnear := near_fin x.toRat
  rwa [fin_toRat h] at hnear

theorem InRange.near_sum {value : α → Float64} {v : α → ℚ} {A d : ℚ}
    (h : InRange l.length M W) (hA : (l.map fun e => |v e|).sum ≤ A)
    (hfits : A ≤ overflow / 8) (hd : 0 ≤ d) (hdA : d ≤ eps * A + eta)
    (hv : ∀ e ∈ l, Near d (v e) (value e)) :
    Near (l.length * (2 * (d + eps * A + eta))) (l.map v).sum
      (l.foldl (fun s e => s.add (value e)) zero) := by
  have hA₀ : 0 ≤ A := sum_abs_nonneg.trans hA
  have hlen : (0 : ℚ) ≤ l.length := l.length.cast_nonneg
  refine near_foldl_add (by linarith [h.count_eps]) hd hv hA ?_
  have hterm := mul_le_mul_of_nonneg_left hdA hlen
  have hcount := mul_le_mul_of_nonneg_right h.count_eps hA₀
  have hW : 0 ≤ W := (mul_nonneg hlen (by decide +kernel)).trans h.weight_low
  have hsmall := mul_le_mul_of_nonneg_right eps_small hW
  linarith [h.count_eta, h.weight_high]

/-- The exact values of what is averaged. -/
theorem within_quotient {x w : α → ℚ} {scores : List Float64} {a b : Float64} (hne : l ≠ [])
    (h : InRange l.length M (l.map w).sum) (hw : ∀ e ∈ l, 0 ≤ w e) (hM : ∀ e ∈ l, |x e| ≤ M)
    (hscores : ∀ e ∈ l, fin (x e) ∈ scores)
    (ha : Near (2 * sumError l.length (M * (l.map w).sum)) (l.map fun e => x e * w e).sum a)
    (hb : Near (sumError l.length (l.map w).sum) (l.map w).sum b) :
    lt zero b = true ∧ Within (slack l.length M (l.map w).sum) scores (a.div b) := by
  have hn : 0 < l.length := List.length_pos_iff.mpr hne
  have hS : |(l.map fun e => x e * w e).sum| ≤ M * (l.map w).sum := by
    have := weighted_sum_bounds hw fun e he => abs_le.mp (hM e he)
    rw [neg_mul] at this
    exact abs_le.mpr this
  obtain ⟨hpos, hquot⟩ := near_quotient h hn hS ha hb
  refine ⟨hpos, hquot.within fun lo hi hbound => ?_⟩
  exact weighted_average_bounds hw (h.weight_pos hn) fun e he => hbound _ (hscores e he)

theorem fin_toRat_mem (hs : ∀ e ∈ l, (score e).isFinite = true) {e : α} (he : e ∈ l) :
    fin (score e).toRat ∈ l.map score :=
  List.mem_map.mpr ⟨e, he, (fin_toRat (hs e he)).symm⟩

/-- **The plain average.** -/
theorem within_mean (hne : l ≠ []) (hs : ∀ e ∈ l, (score e).isFinite = true)
    (hM : ∀ e ∈ l, |(score e).toRat| ≤ M) (h : InRange l.length M l.length) :
    Within (slack l.length M l.length) (l.map score)
      ((l.foldl (fun s e => s.add (score e)) zero).div (ofNat l.length)) := by
  have hone : (1 : ℚ) ≤ l.length := by exact_mod_cast List.length_pos_iff.mpr hne
  have hunit : (l.map fun _ => (1 : ℚ)).sum = l.length := by simp
  have habs : (l.map fun e => |(score e).toRat|).sum ≤ M * l.length := by
    have := sum_abs_weighted_le (w := fun _ => 1) (fun _ _ => zero_le_one) hM
    simpa only [mul_one, hunit] using this
  have hepsA : 0 ≤ eps * (M * l.length) := mul_nonneg eps_pos.le (sum_abs_nonneg.trans habs)
  have hsum : Near (2 * sumError l.length (M * l.length))
      (l.map fun e => (score e).toRat).sum (l.foldl (fun s e => s.add (score e)) zero) := by
    refine (h.near_sum habs h.product le_rfl (by linarith [eta_pos]) fun e he =>
      near_of_isFinite (hs e he)).mono ?_
    have hterm : 0 ≤ l.length * (eps * (M * l.length) + eta) :=
      mul_nonneg (by linarith) (by linarith [eta_pos])
    unfold sumError
    linarith
  have hcount : Near (sumError l.length l.length) l.length (ofNat l.length) := by
    have hterm : 0 ≤ eps * l.length + eta :=
      add_nonneg (mul_nonneg eps_pos.le (by linarith)) eta_pos.le
    have hfits : (l.length : ℚ) ≤ overflow / 2 := by linarith [h.weight_high, overflow_pos]
    refine (near_round_self (Nat.abs_cast _).le hfits).mono ?_
    unfold sumError
    linarith [le_mul_of_one_le_left hterm hone]
  have havg := within_quotient (x := fun e => (score e).toRat) (w := fun _ => 1) (M := M)
    (b := ofNat l.length) hne (by rwa [hunit]) (fun _ _ => zero_le_one) hM
    (fun e he => fin_toRat_mem hs he) (by simpa only [mul_one, hunit] using hsum)
    (by rwa [hunit])
  rw [hunit] at havg
  exact havg.2

/-- **The weighted average**, behind a guard on the sum of the weights. -/
theorem within_weighted (hne : l ≠ []) (hs : ∀ e ∈ l, (score e).isFinite = true)
    (hw : ∀ e ∈ l, le zero (weight e) = true) (hfin : ∀ e ∈ l, (weight e).isFinite = true)
    (hM : ∀ e ∈ l, |(score e).toRat| ≤ M)
    (h : InRange l.length M (l.map fun e => (weight e).toRat).sum) :
    let weightSum := l.foldl (fun s e => s.add (weight e)) zero
    lt zero weightSum = true ∧
      Within (slack l.length M (l.map fun e => (weight e).toRat).sum) (l.map score)
        ((l.foldl (fun s e => s.add ((score e).mul (weight e))) zero).div weightSum) := by
  intro weightSum
  have hnonneg : ∀ e ∈ l, 0 ≤ (weight e).toRat := fun e he => nonneg_toRat (hw e he)
  have hproducts := sum_abs_weighted_le hnonneg hM
  have hweights : (l.map fun e => |(weight e).toRat|) = l.map fun e => (weight e).toRat :=
    List.map_congr_left fun e he => abs_of_nonneg (hnonneg e he)
  generalize hW : (l.map fun e => (weight e).toRat).sum = W at h hproducts ⊢
  have hepsW : 0 ≤ eps * W :=
    mul_nonneg eps_pos.le (hW ▸ hweights ▸ sum_abs_nonneg)
  have hepsA : 0 ≤ eps * (M * W) := mul_nonneg eps_pos.le (sum_abs_nonneg.trans hproducts)
  have hweightSum : Near (sumError l.length W) W weightSum := by
    have := h.near_sum (by rw [hweights, hW]) h.weight_high le_rfl (by linarith [eta_pos])
      fun e he => near_of_isFinite (hfin e he)
    rwa [zero_add, hW] at this
  have hterm (e : α) (he : e ∈ l) : Near (eps * (M * W) + eta)
      ((score e).toRat * (weight e).toRat) ((score e).mul (weight e)) := by
    have hle := (@abs_le_sum_abs α l (fun e => (score e).toRat * (weight e).toRat) e he).trans
      hproducts
    exact near_mul (hs e he) (hfin e he) hle (by linarith [h.product, overflow_pos])
  have hwScore := h.near_sum hproducts h.product (by linarith [eta_pos]) le_rfl hterm
  have := within_quotient (x := fun e => (score e).toRat) (w := fun e => (weight e).toRat)
    (M := M) hne (by rwa [hW]) hnonneg hM (fun e he => fin_toRat_mem hs he)
    (hwScore.mono (by rw [hW, sumError]; linarith)) (by rwa [hW])
  rwa [hW] at this

end Average

end Scintx.Lib.Float64
