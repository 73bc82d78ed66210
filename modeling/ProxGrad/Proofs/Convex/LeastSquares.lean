import ProxGrad.Proofs.Convex.ProximalGradient
import ProxGrad.Proofs.Exact.LeastSquares

/-!
# Bounds on the least-squares misfit

The misfit is a quadratic function. Its second-order term is half the squared length of the image,
so that any bound on the operator bounds the misfit by its linear approximations.
-/

set_option autoImplicit false

namespace ProxGrad.LeastSquares

open Exact
open scoped RealInnerProductSpace

variable {𝕜 : Type} [RCLike 𝕜] {shape observed : List Nat}

theorem misfitAt_add (A : Point 𝕜 shape →ₗ[𝕜] Point 𝕜 observed) (y : Point 𝕜 observed)
    (x d : Point 𝕜 shape) :
    misfitAt A y (x + d) =
      misfitAt A y x + RCLike.re (inner 𝕜 (gradientAt A y x) d) + 1 / 2 * ‖A d‖ ^ 2 := by
  have split : A (x + d) - y = (A x - y) + A d := by
    rw [map_add]
    abel
  rw [misfitAt, misfitAt, gradientAt, LinearMap.adjoint_inner_left, split,
    norm_add_sq (𝕜 := 𝕜)]
  ring

theorem misfitAt_nonneg (A : Point 𝕜 shape →ₗ[𝕜] Point 𝕜 observed) (y : Point 𝕜 observed)
    (x : Point 𝕜 shape) : 0 ≤ misfitAt A y x := by
  rw [misfitAt]
  positivity

/-- A misfit is nowhere below its linear approximations. -/
theorem misfitAt_add_inner_le (A : Point 𝕜 shape →ₗ[𝕜] Point 𝕜 observed) (y : Point 𝕜 observed)
    (x d : Point 𝕜 shape) :
    misfitAt A y x + RCLike.re (inner 𝕜 (gradientAt A y x) d) ≤ misfitAt A y (x + d) := by
  rw [misfitAt_add]
  exact le_add_of_nonneg_right (by positivity)

theorem re_inner_real_smul (g d : Point 𝕜 shape) (a : ℝ) :
    RCLike.re (inner 𝕜 g (a • d)) = a * RCLike.re (inner 𝕜 g d) := by
  rw [RCLike.real_smul_eq_coe_smul (K := 𝕜), inner_smul_right, RCLike.re_ofReal_mul]

theorem convexOn_misfitAt (A : Point 𝕜 shape →ₗ[𝕜] Point 𝕜 observed) (y : Point 𝕜 observed) :
    ConvexOn ℝ Set.univ (misfitAt A y) := by
  refine ⟨convex_univ, fun p _ q _ a b above above' total => ?_⟩
  -- Both ends are compared with the approximation at the point between them.
  have first := misfitAt_add_inner_le A y (a • p + b • q) (b • (p - q))
  have second := misfitAt_add_inner_le A y (a • p + b • q) ((-a) • (p - q))
  obtain rfl : b = 1 - a := by linarith
  have back : a • p + (1 - a) • q + (1 - a) • (p - q) = p := by module
  have forth : a • p + (1 - a) • q + (-a) • (p - q) = q := by module
  rw [back, re_inner_real_smul] at first
  rw [forth, re_inner_real_smul] at second
  rw [smul_eq_mul, smul_eq_mul]
  nlinarith [mul_le_mul_of_nonneg_left first above, mul_le_mul_of_nonneg_left second above']

/-- A bound on an operator bounds the operator followed by its adjoint. -/
theorem norm_adjoint_apply_le {A : Point 𝕜 shape →ₗ[𝕜] Point 𝕜 observed} {C : ℝ}
    (bound : ∀ d, ‖A d‖ ^ 2 ≤ C * ‖d‖ ^ 2) (d : Point 𝕜 shape) :
    ‖A.adjoint (A d)‖ ≤ C * ‖d‖ := by
  have nonneg : 0 ≤ C * ‖d‖ := by
    rcases (norm_nonneg d).eq_or_lt with zero | positive
    · rw [← zero, mul_zero]
    · have square := (sq_nonneg _).trans (bound d)
      rw [sq, ← mul_assoc] at square
      exact nonneg_of_mul_nonneg_left square positive
  have energy : ‖A.adjoint (A d)‖ ^ 2 ≤ ‖A d‖ * ‖A (A.adjoint (A d))‖ := by
    rw [← inner_self_eq_norm_sq (𝕜 := 𝕜), LinearMap.adjoint_inner_left]
    exact re_inner_le_norm _ _
  have squared : (‖A.adjoint (A d)‖ ^ 2) ^ 2 ≤ (C * ‖d‖) ^ 2 * ‖A.adjoint (A d)‖ ^ 2 :=
    calc (‖A.adjoint (A d)‖ ^ 2) ^ 2
        ≤ (‖A d‖ * ‖A (A.adjoint (A d))‖) ^ 2 := by gcongr
      _ = ‖A d‖ ^ 2 * ‖A (A.adjoint (A d))‖ ^ 2 := mul_pow _ _ _
      _ ≤ (C * ‖d‖ ^ 2) * (C * ‖A.adjoint (A d)‖ ^ 2) :=
        mul_le_mul (bound d) (bound _) (sq_nonneg _) ((sq_nonneg _).trans (bound d))
      _ = (C * ‖d‖) ^ 2 * ‖A.adjoint (A d)‖ ^ 2 := by ring
  rcases (norm_nonneg (A.adjoint (A d))).eq_or_lt with zero | positive
  · rwa [← zero]
  · rw [sq (‖A.adjoint (A d)‖ ^ 2)] at squared
    have length := le_of_mul_le_mul_right squared (pow_pos positive 2)
    exact (pow_le_pow_iff_left₀ positive.le nonneg two_ne_zero).mp length

theorem gradientAt_sub (A : Point 𝕜 shape →ₗ[𝕜] Point 𝕜 observed) (y : Point 𝕜 observed)
    (u v : Point 𝕜 shape) : gradientAt A y u - gradientAt A y v = A.adjoint (A (u - v)) := by
  rw [gradientAt, gradientAt, ← map_sub, map_sub A, sub_sub_sub_cancel_right]

/-- An operator bound is a bound on the curvature of the misfit. -/
theorem smoothBounds_of_le {A : Point ℝ shape →ₗ[ℝ] Point ℝ observed} {L : ℝ}
    (bound : ∀ u, ‖A u‖ ^ 2 ≤ L * ‖u‖ ^ 2) (y : Point ℝ observed) :
    SmoothBounds (misfitAt A y) (gradientAt A y) L where
  lower u v := by
    have above := misfitAt_add_inner_le A y u (v - u)
    rwa [add_sub_cancel] at above
  upper u v := by
    have expanded := misfitAt_add A y u (v - u)
    rw [add_sub_cancel] at expanded
    have bounded := bound (v - u)
    rw [expanded]
    exact add_le_add (le_refl _) (by linarith)

end ProxGrad.LeastSquares
