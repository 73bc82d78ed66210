import Mathlib.Data.Real.Sign
import ProxGrad.Proofs.Convex.ProximalGradient
import ProxGrad.Proofs.Exact.Objective
import ProxGrad.Terms.Proximal

/-!
# Soft thresholding

The proximal map of the weighted sum of magnitudes, for real points. It moves every coordinate
towards zero by the step times the weight, and stops there.
-/

set_option autoImplicit false

namespace ProxGrad

/-- A number moved towards zero by `t`, but not beyond. -/
noncomputable def shrink (t y : ℝ) : ℝ :=
  y / |y| * max (|y| - t) 0

theorem shrink_of_abs_le {t y : ℝ} (small : |y| ≤ t) : shrink t y = 0 := by
  rw [shrink, max_eq_right (sub_nonpos.mpr small), mul_zero]

theorem shrink_of_lt {t y : ℝ} (nonneg : 0 ≤ t) (above : t < y) : shrink t y = y - t := by
  have positive : 0 < y := nonneg.trans_lt above
  rw [shrink, abs_of_pos positive, div_self positive.ne', one_mul, max_eq_left (by linarith)]

theorem shrink_neg (t y : ℝ) : shrink t (-y) = -shrink t y := by
  rw [shrink, shrink, abs_neg, neg_div, neg_mul]

theorem shrink_of_lt_neg {t y : ℝ} (nonneg : 0 ≤ t) (below : y < -t) : shrink t y = y + t := by
  have mirrored := shrink_of_lt nonneg (lt_neg_of_lt_neg below)
  rw [shrink_neg] at mirrored
  linarith

/-- Shrinking brings two numbers no further apart. -/
theorem abs_shrink_sub_le {t : ℝ} (nonneg : 0 ≤ t) (a b : ℝ) :
    |shrink t a - shrink t b| ≤ |a - b| := by
  wlog order : b ≤ a generalizing a b
  · rw [abs_sub_comm, abs_sub_comm a]
    exact this b a (le_of_not_ge order)
  have ranges (y : ℝ) : (-t ≤ y ∧ y ≤ t) ∧ shrink t y = 0 ∨ t < y ∧ shrink t y = y - t ∨
      y < -t ∧ shrink t y = y + t := by
    rcases le_or_gt |y| t with small | large
    · exact .inl ⟨abs_le.mp small, shrink_of_abs_le small⟩
    · rcases lt_abs.mp large with above | below
      · exact .inr (.inl ⟨above, shrink_of_lt nonneg above⟩)
      · have below := lt_neg_of_lt_neg below
        exact .inr (.inr ⟨below, shrink_of_lt_neg nonneg below⟩)
  have between : 0 ≤ shrink t a - shrink t b ∧ shrink t a - shrink t b ≤ a - b := by
    rcases ranges a with ⟨_, first⟩ | ⟨_, first⟩ | ⟨_, first⟩ <;>
      rcases ranges b with ⟨_, second⟩ | ⟨_, second⟩ | ⟨_, second⟩ <;>
        rw [first, second] <;> constructor <;> linarith
  rw [abs_of_nonneg between.1, abs_of_nonneg (sub_nonneg.mpr order)]
  exact between.2

private theorem shrink_minimizes_of_nonneg {t y : ℝ} (nonneg : 0 ≤ t) (above : 0 ≤ y) (u : ℝ) :
    1 / 2 * (shrink t y - y) ^ 2 + t * |shrink t y| ≤ 1 / 2 * (u - y) ^ 2 + t * |u| := by
  have size : u ≤ |u| := le_abs_self u
  rcases le_or_gt y t with small | large
  · rw [shrink_of_abs_le ((abs_of_nonneg above).trans_le small), abs_zero]
    have bounded : y * u ≤ t * |u| :=
      (mul_le_mul_of_nonneg_left size above).trans
        (mul_le_mul_of_nonneg_right small (abs_nonneg u))
    nlinarith [sq_nonneg u]
  · rw [shrink_of_lt nonneg large, abs_of_pos (sub_pos.mpr large)]
    have weighted := mul_le_mul_of_nonneg_left size nonneg
    nlinarith [sq_nonneg (u - y + t)]

theorem shrink_minimizes {t : ℝ} (nonneg : 0 ≤ t) (y u : ℝ) :
    1 / 2 * (shrink t y - y) ^ 2 + t * |shrink t y| ≤ 1 / 2 * (u - y) ^ 2 + t * |u| := by
  rcases le_total 0 y with above | below
  · exact shrink_minimizes_of_nonneg nonneg above u
  · have mirrored := shrink_minimizes_of_nonneg nonneg (neg_nonneg.mpr below) (-u)
    rw [shrink_neg, abs_neg, abs_neg] at mirrored
    linarith

/-- A shrunk number lies beside the given one by the threshold, on its own side of zero; it is zero
for all that the threshold covers. -/
theorem shrink_eq_iff {t : ℝ} (nonneg : 0 ≤ t) (x y : ℝ) :
    shrink t y = x ↔ (x ≠ 0 → y = x + t * x.sign) ∧ (x = 0 → |y| ≤ t) := by
  constructor
  · rintro rfl
    rcases le_or_gt |y| t with small | large
    · rw [shrink_of_abs_le small]
      exact ⟨fun impossible => absurd rfl impossible, fun _ => small⟩
    · rcases lt_abs.mp large with above | below
      · rw [shrink_of_lt nonneg above, Real.sign_of_pos (sub_pos.mpr above)]
        exact ⟨fun _ => by ring, fun zero => absurd zero (sub_pos.mpr above).ne'⟩
      · have under : y + t < 0 := by linarith
        rw [shrink_of_lt_neg nonneg (by linarith), Real.sign_of_neg under]
        exact ⟨fun _ => by ring, fun zero => absurd zero under.ne⟩
  · rintro ⟨moved, covered⟩
    rcases lt_trichotomy x 0 with below | rfl | above
    · have beside := moved below.ne
      rw [Real.sign_of_neg below] at beside
      rw [shrink_of_lt_neg nonneg (by linarith)]
      linarith
    · exact shrink_of_abs_le (covered rfl)
    · have beside := moved above.ne'
      rw [Real.sign_of_pos above] at beside
      rw [shrink_of_lt nonneg (by linarith)]
      linarith

/-- Shrinking brings a number back to `x` from a step against `g`, exactly if `g` balances the
weight there. -/
theorem shrink_sub_eq_iff {s w : ℝ} (positive : 0 < s) (nonneg : 0 ≤ w) (x g : ℝ) :
    shrink (s * w) (x - s * g) = x ↔ (x ≠ 0 → g = -(w * x.sign)) ∧ (x = 0 → |g| ≤ w) := by
  rw [shrink_eq_iff (mul_nonneg positive.le nonneg)]
  refine and_congr (imp_congr_right fun _ => ?_) (imp_congr_right fun zero => ?_)
  · constructor
    · intro moved
      refine mul_left_cancel₀ positive.ne' ?_
      linarith
    · rintro rfl
      ring
  · rw [zero, zero_sub, abs_neg, abs_mul, abs_of_pos positive]
    exact mul_le_mul_iff_right₀ positive

namespace Exact

variable {shape : List Nat}

noncomputable def magnitudes (weight : ℝ) (p : Point ℝ shape) : ℝ :=
  weight * ∑ i, |p i|

/-- Every coordinate shrunk by the step times the weight. -/
noncomputable def softThresholdAt (weight : ℝ) (y : Point ℝ shape) (step : ℝ) : Point ℝ shape :=
  WithLp.toLp 2 fun i => shrink (step * weight) (y i)

theorem convexOn_magnitudes {weight : ℝ} (nonneg : 0 ≤ weight) :
    ConvexOn ℝ Set.univ (magnitudes weight : Point ℝ shape → ℝ) := by
  refine ⟨convex_univ, fun p _ q _ a b above above' _ => ?_⟩
  have each (i) : |a * p i + b * q i| ≤ a * |p i| + b * |q i| := by
    refine (abs_add_le _ _).trans_eq ?_
    rw [abs_mul, abs_mul, abs_of_nonneg above, abs_of_nonneg above']
  have total := Finset.sum_le_sum fun i (_ : i ∈ Finset.univ) => each i
  rw [Finset.sum_add_distrib, ← Finset.mul_sum, ← Finset.mul_sum] at total
  have weighted := mul_le_mul_of_nonneg_left total nonneg
  change weight * ∑ i, |a * p i + b * q i| ≤ a * (weight * _) + b * (weight * _)
  linarith

/-- Soft thresholding gives minimizers for the weighted sum of magnitudes. -/
theorem isProximalMap_softThresholdAt {weight : ℝ} (nonneg : 0 ≤ weight) :
    IsProximalMap Set.univ (magnitudes weight : Point ℝ shape → ℝ) (softThresholdAt weight) where
  mem _ _ _ := Set.mem_univ _
  minimizes y step u positive _ := by
    have each (i) := shrink_minimizes (mul_nonneg positive.le nonneg) (y i) (u i)
    have total := Finset.sum_le_sum fun i (_ : i ∈ Finset.univ) => each i
    simp only [Finset.sum_add_distrib, ← Finset.mul_sum] at total
    rw [EuclideanSpace.norm_sq_eq, EuclideanSpace.norm_sq_eq, magnitudes, magnitudes]
    simp only [softThresholdAt, PiLp.sub_apply, Real.norm_eq_abs, sq_abs, ← mul_assoc]
    exact total

theorem softThreshold_ofPoint (p : Point ℝ shape) (step weight : ℝ) :
    Terms.softThreshold (ofPoint p) (real step) (real weight) =
      .ok (ofPoint (softThresholdAt weight p step)) := by
  have direction : Calculus.sign (ofPoint p) = .ok (ofPoint (WithLp.toLp 2 fun i => p i / |p i|)) :=
    congrArg Except.ok (map_ofPoint (fun z => z / ‖z‖) p)
  have size : Calculus.abs (ofPoint p) = .ok (ofPoint (WithLp.toLp 2 fun i => |p i|)) :=
    congrArg Except.ok (map_ofPoint (fun z => ‖z‖) p)
  simp only [Terms.softThreshold, direction, size, bind, Except.bind, mul_real, ofDecimal_zero]
  have lowered : Calculus.sub (ofPoint (WithLp.toLp 2 fun i => |p i| : Point ℝ shape))
      (real (step * weight)) = .ok (ofPoint (WithLp.toLp 2 fun i => |p i| - step * weight)) :=
    entrywise_ofPoint_scalar (· - ·) _ (step * weight)
  rw [lowered]
  simp only [maximum_eq_max, real, entrywise_ofPoint_scalar]
  exact entrywise_ofPoint (· * ·) _ _

end Exact

def Terms.l1 {V : Type} [Calculus V] (weight : Ref V) : ProximalTerm V where
  prox := Terms.proxL1 weight
  value := Terms.valueL1 weight

open Exact

variable {shape : List Nat} {own : TermState (Tensor ℝ)}

theorem Terms.l1_computes {weight : Ref (Tensor ℝ)} {lam : ℝ}
    (seen : ∀ m, own.sound m → (Action.readRef weight).outcome m = (.ok (real lam), m)) :
    (Terms.l1 weight).Computes own (softThresholdAt lam : Point ℝ shape → ℝ → Point ℝ shape) where
  prox := by
    intro m out old y step _ foreign sound held
    obtain ⟨stored, written, sound', kept⟩ :=
      overwrites_store sound foreign held (softThresholdAt lam y step)
    have entries : Calculus.entries (ofPoint y) = .ok (ofPoint y) := rfl
    refine ⟨_, ?_, written, sound', kept⟩
    change (Terms.proxL1 weight (.const (ofPoint y)) (real step) out).outcome m = _
    rw [Terms.proxL1, Action.outcome_bind_of_ok (Action.outcome_readRef_const _ m), entries,
      Action.outcome_bind_of_ok (Action.outcome_lift _ m),
      Action.outcome_bind_of_ok (seen m sound), softThreshold_ofPoint,
      Action.outcome_bind_of_ok (Action.outcome_lift _ m), stored]

end ProxGrad
