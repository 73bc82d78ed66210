import ProxGrad.Proofs.Convex.LeastSquares
import ProxGrad.Proofs.Fista.Refinement

/-!
# How fast runs minimize

The bounds on the recurrence, as properties of the arrays of a run: where iterates are extrapolated
the proximal points converge in value at a rate of `1 / (n + 1)²`, and where they are not the
iterates themselves descend, at a rate of `1 / n`.
-/

set_option autoImplicit false

namespace ProxGrad

namespace Fista

open Exact

variable {shape : List Nat} {plan : Plan (Tensor ℝ)} {own : TermState (Tensor ℝ)}
  {objective : Objective (Tensor ℝ)} {x : Cell} {m : Memory (Tensor ℝ)} {f g : Point ℝ shape → ℝ}
  {G : Point ℝ shape → Point ℝ shape} {P : Point ℝ shape → ℝ → Point ℝ shape}
  {finite : Set (Point ℝ shape)} {x₀ : Point ℝ shape} {L : ℝ} {count : Nat}

theorem Start.minimizes (start : Start plan own x m x₀ L count) (smooth : SmoothBounds f G L)
    (convex : ConvexOn ℝ finite g) (prox : IsProximalMap finite g P) :
    Minimizes (recurrenceOf plan G P L) finite f g :=
  ⟨start.positive, smooth, convex, prox⟩

/-- In an accelerated run without a reset, the array of proximal points holds after iteration `n` a
point whose value exceeds no other by more than `2 L ‖x₀ - u‖² / (n + 1)²`. The bounds on the smooth
term are met by least-squares misfits whose operator is bounded by `L`. -/
theorem proximal_value_sub_le (start : Start plan own x m x₀ L count)
    (accelerated : plan.accelerated = true) (unlimited : plan.resetAfter = none)
    (computes : objective.Computes own f G P) (smooth : SmoothBounds f G L)
    (convex : ConvexOn ℝ finite g) (prox : IsProximalMap finite g P) :
    (∃ w : Workspace (Tensor ℝ), w.iterate = x ∧ w.proximal ≠ x ∧
      ∀ n, 1 ≤ n → n ≤ count → ∃ s m' z, Reached objective plan x m n w s m' ∧
        m'.content w.proximal = some (ofPoint z) ∧ z ∈ finite ∧
        ∀ u ∈ finite, f z + g z - f u - g u ≤ 2 * L * ‖x₀ - u‖ ^ 2 / (n + 1) ^ 2) ∧
    ∀ (observed : List Nat) (term : LeastSquares (Tensor ℝ)) (y : Point ℝ observed)
      (A : Point ℝ shape →ₗ[ℝ] Point ℝ observed),
      term.Represents own A y → (∀ u, ‖A u‖ ^ 2 ≤ L * ‖u‖ ^ 2) →
      term.term.Computes own (LeastSquares.misfitAt A y) (LeastSquares.gradientAt A y) ∧
        SmoothBounds (LeastSquares.misfitAt A y) (LeastSquares.gradientAt A y) L := by
  constructor
  · obtain ⟨w, same, layout, reached⟩ := start.reached computes
    refine ⟨w, same, same ▸ layout.proximal_ne_iterate accelerated, fun n one_le bound => ?_⟩
    obtain ⟨s, m', stands, invariant⟩ := reached n bound
    obtain ⟨z, held, found⟩ := invariant.proximal
    have minimizes := start.minimizes smooth convex prox
    rw [found (Nat.one_le_iff_ne_zero.mp one_le)] at held
    refine ⟨s, m', _, stands, held, minimizes.proximalPoint_mem x₀ one_le, fun u member => ?_⟩
    rw [sub_sub]
    exact minimizes.proximalPoint_sub_le accelerated unlimited x₀ member one_le
  · intro observed term y A represents bound
    exact ⟨represents.computes, LeastSquares.smoothBounds_of_le bound y⟩

theorem norm_sq_one_apply_le (u : Point ℝ shape) :
    ‖Matrix.toEuclideanLin (1 : Matrix (Fin (Shape.size shape)) _ ℝ) u‖ ^ 2 ≤ 1 * ‖u‖ ^ 2 := by
  rw [Matrix.toLpLin_one, LinearMap.id_apply, one_mul]

/-- Five accelerated iterations of denoising. -/
theorem denoising_proximal_value_sub_le :
    let A : Matrix (Fin (Shape.size [2])) (Fin (Shape.size [2])) ℝ := 1
    let y : Point ℝ [2] := WithLp.toLp 2 ![3, -1]
    let value (u : Point ℝ [2]) := LeastSquares.misfitAt A.toEuclideanLin y u + magnitudes 1 u
    ∃ w s m' z,
      Reached (lasso A y 1) (quietPlan 1 true none 5) ⟨0⟩ { cells := #[ofPoint y] } 5 w s m' ∧
      m'.content w.proximal = some (ofPoint z) ∧
      ∀ u, value z - value u ≤ 2 * ‖y - u‖ ^ 2 / 36 := by
  intro A y value
  obtain ⟨⟨w, _, _, run⟩, _⟩ := proximal_value_sub_le
    (start_quietPlan one_pos true none 5 y fun _ _ => rfl) rfl rfl (lasso_computes A y 1)
    (LeastSquares.smoothBounds_of_le norm_sq_one_apply_le y) (convexOn_magnitudes zero_le_one)
    (isProximalMap_softThresholdAt zero_le_one)
  obtain ⟨s, m', z, reached, held, _, rate⟩ := run 5 (by decide) (by decide)
  refine ⟨w, s, m', z, reached, held, fun u => ?_⟩
  have bound := rate u (Set.mem_univ u)
  rwa [sub_sub, mul_one, (by norm_num : (((5 : Nat) : ℝ) + 1) ^ 2 = 36)] at bound

/-- A run that does not extrapolate descends in each iteration, and the array that it gives back
holds a point whose value exceeds no other by more than `L ‖x₀ - u‖² / (2 n)`. -/
theorem plain_values_descend (start : Start plan own x m x₀ L count)
    (plain : plan.accelerated = false) (computes : objective.Computes own f G P)
    (smooth : SmoothBounds f G L) (convex : ConvexOn ℝ finite g) (prox : IsProximalMap finite g P) :
    ∃ iterates : Nat → Point ℝ shape, iterates 0 = x₀ ∧
      (∀ k ≤ count, ∃ w s m', Reached objective plan x m k w s m' ∧
        m'.content x = some (ofPoint (iterates k))) ∧
      (∀ k < count, iterates (k + 1) ∈ finite ∧ (iterates k ∈ finite →
        f (iterates (k + 1)) + g (iterates (k + 1)) ≤ f (iterates k) + g (iterates k) -
          L / 2 * ‖iterates (k + 1) - iterates k‖ ^ 2)) ∧
      ∃ m', (minimize (pure objective) plan x).outcome m = (.ok x, m') ∧
        m'.content x = some (ofPoint (iterates count)) ∧
        (1 ≤ count → ∀ u ∈ finite, f (iterates count) + g (iterates count) - (f u + g u) ≤
          L * ‖x₀ - u‖ ^ 2 / (2 * count)) := by
  have minimizes := start.minimizes smooth convex prox
  obtain ⟨w, same, layout, reached⟩ := start.reached computes
  refine ⟨(recurrenceOf plan G P L).iterate x₀, rfl, ?_, ?_, ?_⟩
  · intro k bound
    obtain ⟨s, m', stands, invariant⟩ := reached k bound
    exact ⟨w, s, m', stands, same ▸ invariant.iterate⟩
  · intro k bound
    exact ⟨minimizes.iterate_mem_of_plain plain x₀ k, minimizes.iterate_descends plain x₀ k⟩
  · obtain ⟨w, s, m', same, finished, invariant⟩ := start.finished computes
    refine ⟨m', finished, same ▸ invariant.iterate, fun one_le u member => ?_⟩
    exact minimizes.iterate_sub_le plain x₀ member one_le

/-- Five plain iterations of denoising. -/
theorem denoising_plain_values_descend :
    let A : Matrix (Fin (Shape.size [2])) (Fin (Shape.size [2])) ℝ := 1
    let y : Point ℝ [2] := WithLp.toLp 2 ![3, -1]
    let value (u : Point ℝ [2]) := LeastSquares.misfitAt A.toEuclideanLin y u + magnitudes 1 u
    ∃ m' z, (minimize (pure (lasso A y 1)) (quietPlan 1 false none 5) ⟨0⟩).outcome
        { cells := #[ofPoint y] } = (.ok ⟨0⟩, m') ∧
      m'.content ⟨0⟩ = some (ofPoint z) ∧ ∀ u, value z - value u ≤ ‖y - u‖ ^ 2 / 10 := by
  intro A y value
  obtain ⟨iterates, _, _, _, m', finished, held, rate⟩ := plain_values_descend
    (start_quietPlan one_pos false none 5 y fun _ _ => rfl) rfl (lasso_computes A y 1)
    (LeastSquares.smoothBounds_of_le norm_sq_one_apply_le y) (convexOn_magnitudes zero_le_one)
    (isProximalMap_softThresholdAt zero_le_one)
  refine ⟨m', iterates 5, finished, held, fun u => ?_⟩
  have bound := rate (by decide) u (Set.mem_univ u)
  rwa [one_mul, (by norm_num : 2 * ((5 : Nat) : ℝ) = 10)] at bound

end Fista

end ProxGrad
