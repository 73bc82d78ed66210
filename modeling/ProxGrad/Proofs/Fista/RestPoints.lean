import ProxGrad.Proofs.Convex.LeastSquares
import ProxGrad.Proofs.Convex.RestPoints
import ProxGrad.Proofs.Fista.Refinement

/-!
# Where runs on LASSO problems rest

The points that an iteration leaves where they are, are the minimizers, whichever constant the run
is given: the step size cancels from the condition on each coordinate.
-/

set_option autoImplicit false

namespace ProxGrad

open Exact

variable {shape observed : List Nat}
  {A : Matrix (Fin (Shape.size observed)) (Fin (Shape.size shape)) ℝ} {y : Point ℝ observed}
  {lam : ℝ} {x₀ : Point ℝ shape}

/-- The objective of the LASSO problem. -/
noncomputable def lassoValue (A : Matrix (Fin (Shape.size observed)) (Fin (Shape.size shape)) ℝ)
    (y : Point ℝ observed) (lam : ℝ) (x : Point ℝ shape) : ℝ :=
  LeastSquares.misfitAt A.toEuclideanLin y x + magnitudes lam x

/-- The gradient of the misfit balances the weight at every coordinate other than zero, and does not
exceed it at the others: the KKT conditions. -/
def LassoKkt (A : Matrix (Fin (Shape.size observed)) (Fin (Shape.size shape)) ℝ)
    (y : Point ℝ observed) (lam : ℝ) (x : Point ℝ shape) : Prop :=
  let force : Point ℝ shape := A.transpose.toEuclideanLin (A.toEuclideanLin x - y)
  ∀ i, (x i ≠ 0 → force i = -(lam * (x i).sign)) ∧ (x i = 0 → |force i| ≤ lam)

theorem LeastSquares.gradientAt_toEuclideanLin (x : Point ℝ shape) :
    gradientAt A.toEuclideanLin y x = A.transpose.toEuclideanLin (A.toEuclideanLin x - y) := by
  rw [gradientAt, ← Matrix.toEuclideanLin_conjTranspose_eq_adjoint,
    Matrix.conjTranspose_eq_transpose_of_trivial]

/-- A proximal gradient step of any size leaves exactly the points where they are that meet the KKT
conditions. -/
theorem step_eq_iff_lassoKkt (nonneg : 0 ≤ lam) {r : Recurrence (Point ℝ shape)}
    (positive : 0 < r.lipschitz)
    (gradient : r.gradient = LeastSquares.gradientAt A.toEuclideanLin y)
    (prox : r.prox = softThresholdAt lam) : r.step x₀ = x₀ ↔ LassoKkt A y lam x₀ := by
  have coordinate (i) : r.step x₀ i =
      shrink (r.lipschitz⁻¹ * lam) (x₀ i - r.lipschitz⁻¹ *
        (A.transpose.toEuclideanLin (A.toEuclideanLin x₀ - y) : Point ℝ shape) i) := by
    rw [Recurrence.step, prox, gradient, LeastSquares.gradientAt_toEuclideanLin, one_div]
    rfl
  have each (i) := shrink_sub_eq_iff (inv_pos.mpr positive) nonneg (x₀ i)
    ((A.transpose.toEuclideanLin (A.toEuclideanLin x₀ - y) : Point ℝ shape) i)
  constructor
  · intro rest i
    exact (each i).mp ((coordinate i).symm.trans (congrArg (fun p : Point ℝ shape => p i) rest))
  · intro balanced
    exact PiLp.ext fun i => (coordinate i).trans ((each i).mpr (balanced i))

/-- Every linear map between points is bounded, so that some constant bounds the misfit. -/
theorem exists_norm_sq_apply_le (T : Point ℝ shape →ₗ[ℝ] Point ℝ observed) :
    ∃ L : ℝ, 0 < L ∧ ∀ u, ‖T u‖ ^ 2 ≤ L * ‖u‖ ^ 2 := by
  let bounded : Point ℝ shape →L[ℝ] Point ℝ observed := T.toContinuousLinearMap
  refine ⟨‖bounded‖ ^ 2 + 1, by positivity, fun u => ?_⟩
  have bound : ‖T u‖ ≤ ‖bounded‖ * ‖u‖ := bounded.le_opNorm u
  calc ‖T u‖ ^ 2 ≤ (‖bounded‖ * ‖u‖) ^ 2 := by gcongr
    _ = ‖bounded‖ ^ 2 * ‖u‖ ^ 2 := mul_pow _ _ _
    _ ≤ (‖bounded‖ ^ 2 + 1) * ‖u‖ ^ 2 := by gcongr; linarith

/-- The minimizers are the points that meet the KKT conditions. The steps of one recurrence whose
constant bounds the misfit connect the two. -/
theorem isMinOn_lassoValue_iff (nonneg : 0 ≤ lam) :
    IsMinOn (lassoValue A y lam) Set.univ x₀ ↔ LassoKkt A y lam x₀ := by
  obtain ⟨L, positive, bound⟩ := exists_norm_sq_apply_le A.toEuclideanLin
  let r : Recurrence (Point ℝ shape) := {
    gradient := LeastSquares.gradientAt A.toEuclideanLin y
    prox := softThresholdAt lam
    lipschitz := L
    accelerated := false
    resetAfter := none }
  have minimizes : Minimizes r Set.univ (LeastSquares.misfitAt A.toEuclideanLin y)
      (magnitudes lam) := {
    positive := positive
    smooth := LeastSquares.smoothBounds_of_le bound y
    convex := convexOn_magnitudes nonneg
    prox := isProximalMap_softThresholdAt nonneg }
  rw [← step_eq_iff_lassoKkt nonneg (r := r) positive rfl rfl, minimizes.step_eq_iff_isMinOn]
  exact (and_iff_right (Set.mem_univ x₀)).symm

namespace Fista

variable {own : TermState (Tensor ℝ)} {matrix data weight : Ref (Tensor ℝ)}

/-- The minimizers of a LASSO problem are the rest points of the solver. A run from a minimizer
gives it back, whatever the plan says of extrapolation, reset and count, and a start that a single
iteration gives back is a minimizer; these are the points that meet the KKT conditions. -/
theorem minimizers_are_rest_points (arrays : LassoArrays own matrix data weight A y lam)
    (nonneg : 0 ≤ lam) (storage : Storage) (x₀ : Point ℝ shape) :
    (IsMinOn (lassoValue A y lam) Set.univ x₀ →
      ∀ (plan : Plan (Tensor ℝ)) (x : Cell) (m : Memory (Tensor ℝ)) (L : ℝ) (count : Nat),
        Start plan own x m x₀ L count →
        ∃ m', (minimize (pure (lassoOf storage shape observed matrix data weight)) plan x).outcome m
            = (.ok x, m') ∧
          m'.content x = some (ofPoint x₀)) ∧
    (∀ (plan : Plan (Tensor ℝ)) (x : Cell) (m : Memory (Tensor ℝ)) (L : ℝ),
      Start plan own x m x₀ L 1 →
      ∃ m', (minimize (pure (lassoOf storage shape observed matrix data weight)) plan x).outcome m
          = (.ok x, m') ∧
        (m'.content x = some (ofPoint x₀) → IsMinOn (lassoValue A y lam) Set.univ x₀)) ∧
    (IsMinOn (lassoValue A y lam) Set.univ x₀ ↔ LassoKkt A y lam x₀) := by
  have rest_iff (plan : Plan (Tensor ℝ)) {L : ℝ} (positive : 0 < L) :
      (recurrenceOf plan (LeastSquares.gradientAt A.toEuclideanLin y) (softThresholdAt lam) L).step
        x₀ = x₀ ↔ IsMinOn (lassoValue A y lam) Set.univ x₀ := by
    rw [isMinOn_lassoValue_iff nonneg]
    exact step_eq_iff_lassoKkt nonneg positive rfl rfl
  refine ⟨?_, ?_, isMinOn_lassoValue_iff nonneg⟩
  · intro least plan x m L count start
    obtain ⟨w, s, m', rfl, finished, invariant⟩ := start.finished (arrays.computes storage)
    have held := invariant.iterate
    rw [Recurrence.iterate_of_step_eq ((rest_iff plan start.positive).mpr least)] at held
    exact ⟨m', finished, held⟩
  · intro plan x m L start
    obtain ⟨w, s, m', rfl, finished, invariant⟩ := start.finished (arrays.computes storage)
    have held := invariant.iterate
    refine ⟨m', finished, fun same => (rest_iff plan start.positive).mp ?_⟩
    exact ofPoint_injective (Option.some.inj (held.symm.trans same))

/-- Denoising with weight one moves `3` to `2` and `-1/2` to `0`; four iterations from there, with a
reset after the second, stay there. -/
theorem denoised_point_rests :
    let A : Matrix (Fin (Shape.size [2])) (Fin (Shape.size [2])) ℝ := 1
    let y : Point ℝ [2] := WithLp.toLp 2 ![3, -1 / 2]
    let x₀ : Point ℝ [2] := WithLp.toLp 2 ![2, 0]
    ∃ m', (minimize (pure (lasso A y 1)) (quietPlan 3 true (some 2) 4) ⟨0⟩).outcome
        { cells := #[ofPoint x₀] } = (.ok ⟨0⟩, m') ∧
      m'.content ⟨0⟩ = some (ofPoint x₀) := by
  intro A y x₀
  obtain ⟨rests, _, least_iff⟩ :=
    minimizers_are_rest_points (LassoArrays.const A y 1) zero_le_one .dense x₀
  have force : (A.transpose.toEuclideanLin (A.toEuclideanLin x₀ - y) : Point ℝ [2]) = x₀ - y := by
    rw [Matrix.transpose_one, Matrix.toLpLin_one, LinearMap.id_apply, LinearMap.id_apply]
  have balanced : LassoKkt A y 1 x₀ := by
    rw [LassoKkt, force]
    refine Fin.forall_fin_two.mpr ⟨⟨fun _ => ?_, fun zero => ?_⟩, ⟨fun moved => ?_, fun _ => ?_⟩⟩
    · change (2 : ℝ) - 3 = -(1 * Real.sign 2)
      rw [Real.sign_of_pos two_pos]
      norm_num
    · exact absurd zero (two_ne_zero : (2 : ℝ) ≠ 0)
    · exact absurd rfl moved
    · change |(0 : ℝ) - -1 / 2| ≤ 1
      norm_num
  exact rests (least_iff.mpr balanced) _ _ _ _ _
    (start_quietPlan three_pos true (some 2) 4 x₀ fun _ _ => rfl)

end Fista

end ProxGrad
