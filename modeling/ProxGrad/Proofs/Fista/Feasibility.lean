import ProxGrad.Proofs.Exact.NonNegative
import ProxGrad.Proofs.Fista.Refinement

/-!
# Feasibility of solutions

With a proximal map that projects onto a set, every proximal point is in the set. The array that a
run gives back holds the last proximal point if the last iteration does not extrapolate, and is in
the set then. Else it holds a point beyond the last two, which need not be.
-/

set_option autoImplicit false

namespace ProxGrad

namespace Fista

open Exact

def minimizeFrom {V : Type} [Calculus V] (objective : Objective V) (plan : Plan V) (start : Ref V)
    (out : Option Cell) : Action V Cell := do
  minimize (pure objective) plan (← placeStart start out)

variable {𝕜 : Type} [RCLike 𝕜] {shape : List Nat} {plan : Plan (Tensor 𝕜)}
  {own : TermState (Tensor 𝕜)} {objective : Objective (Tensor 𝕜)} {f : Point 𝕜 shape → ℝ}
  {G : Point 𝕜 shape → Point 𝕜 shape} {P : Point 𝕜 shape → ℝ → Point 𝕜 shape} {L : ℝ}
  {count : Nat} {x : Cell} {m : Memory (Tensor 𝕜)} {x₀ : Point 𝕜 shape} {C : Set (Point 𝕜 shape)}

theorem proximalPoint_mem (projects : IsProjection C P) (positive : 0 < L) (n : Nat) :
    (recurrenceOf plan G P L).proximalPoint x₀ (n + 1) ∈ C :=
  projects.mem _ (one_div_pos.mpr positive)

/-- Whether the last of so many iterations does not extrapolate: there is no acceleration, or it is
the first, or the momentum is held since an earlier one. -/
def EndsPlain (plan : Plan (Tensor 𝕜)) (count : Nat) : Prop :=
  plan.accelerated = false ∨ count = 1 ∨ ∃ k, plan.resetAfter = some k ∧ k < count

omit [RCLike 𝕜] in
theorem lands_iff {n : Nat} : (recurrenceOf plan G P L).Lands n ↔ EndsPlain plan (n + 1) := by
  simp [Recurrence.Lands, EndsPlain, recurrenceOf]

/-- What a run in which a set is projected onto gives back: a point of the set if its last iteration
does not extrapolate, and otherwise a point beyond two points of the set, by less than the way
between them. Minimizing from a start that is kept gives the same. -/
theorem solutions_of_projections (start : Start plan own x m x₀ L count)
    (computes : objective.Computes own f G P) (projects : IsProjection C P) (runs : 1 ≤ count) :
    ∃ m' p, (minimize (pure objective) plan x).outcome m = (.ok x, m') ∧
      (∀ initial out m₀, (placeStart initial out).outcome m₀ = (.ok x, m) →
        (minimizeFrom objective plan initial out).outcome m₀ = (.ok x, m')) ∧
      m'.content x = some (ofPoint p) ∧
      (EndsPlain plan count → p ∈ C) ∧
      (¬ EndsPlain plan count → ∃ z ∈ C, ∃ z' ∈ C, ∃ θ : ℝ, 0 < θ ∧ θ < 1 ∧
        p = z + θ • (z - z')) := by
  obtain ⟨w, s, m', same, finished, invariant⟩ := start.finished computes
  obtain ⟨n, rfl⟩ := Nat.exists_eq_add_of_le' runs
  refine ⟨m', (recurrenceOf plan G P L).iterate x₀ (n + 1), finished, ?_, ?_, ?_, ?_⟩
  · intro initial out m₀ placed
    exact (Action.outcome_bind_of_ok placed).trans finished
  · rw [← same]
    exact invariant.iterate
  · intro plain
    rw [Recurrence.iterate_of_lands _ _ (lands_iff.mpr plain)]
    exact proximalPoint_mem projects start.positive n
  · intro beyond
    obtain ⟨θ, above, below, extrapolated⟩ :=
      Recurrence.exists_iterate_of_not_lands (recurrenceOf plan G P L) x₀ (mt lands_iff.mp beyond)
    cases n with
    | zero => exact absurd (.inr (.inl rfl)) beyond
    | succ n =>
      exact ⟨_, proximalPoint_mem projects start.positive (n + 1), _,
        proximalPoint_mem projects start.positive n, θ, above, below, extrapolated⟩

/-! ## Distances over the points without negative entries -/

section

variable {shape : List Nat}

def unit (shape : List Nat) : Matrix (Fin (Shape.size shape)) (Fin (Shape.size shape)) ℝ :=
  1

/-- Half the squared distance from a point, over the points without negative entries. -/
noncomputable def clampedDistance (y : Point ℝ shape) : Objective (Tensor ℝ) where
  smooth := (LeastSquares.ofMatrix .dense shape shape (.const (ofMatrix (unit shape)))
    (.const (ofPoint y))).term
  proximal := {
    prox := fun y _ out => Terms.proxNonNegative y out
    value := fun _ => pure (real 0) }

theorem gradientAt_unit (y : Point ℝ shape) :
    LeastSquares.gradientAt (unit shape).toEuclideanLin y = (· - y) := by
  funext p
  rw [LeastSquares.gradientAt, unit, Matrix.toLpLin_one]
  simp

theorem clampedDistance_computes (y : Point ℝ shape) :
    (clampedDistance y).Computes .nothing (LeastSquares.misfitAt (unit shape).toEuclideanLin y)
      (· - y) raise where
  smooth := by
    have represents : LeastSquares.Represents (.ofMatrix .dense shape shape
        (.const (ofMatrix (unit shape))) (.const (ofPoint y))) .nothing
        (unit shape).toEuclideanLin y :=
      LeastSquares.represents_ofMatrix .dense _ y (fun m _ => Action.outcome_readRef_const _ m)
        fun m _ => Action.outcome_readRef_const _ m
    rw [← gradientAt_unit]
    exact represents.computes
  proximal := Terms.proxNonNegative_computes rfl

theorem clampedStep_apply {r : Recurrence (Point ℝ shape)} {y : Point ℝ shape}
    (gradient : r.gradient = (· - y)) (prox : r.prox = raise) (p : Point ℝ shape)
    (i : Fin (Shape.size shape)) :
    r.step p i = max (p i - r.lipschitz⁻¹ * (p i - y i)) 0 := by
  rw [Recurrence.step, gradient, prox]
  rfl

end

/-- Two iterations from two on the distance from minus one, the momentum held after the first. -/
theorem solution_of_held_momentum :
    let start : Point ℝ [1] := WithLp.toLp 2 ![2]
    let objective := clampedDistance (WithLp.toLp 2 ![-1] : Point ℝ [1])
    let plan := quietPlan 2 true (some 1) 2
    ∃ m' p, (minimizeFrom objective plan (.const (ofPoint start)) none).outcome {} =
        (.ok ⟨0⟩, m') ∧
      m'.content ⟨0⟩ = some (ofPoint p) ∧ p ∈ (nonNegative : Set (Point ℝ [1])) := by
  intro start objective plan
  obtain ⟨m', p, -, fromStart, held, inside, -⟩ := solutions_of_projections
    (start_quietPlan two_pos true (some 1) 2 start fun _ _ => rfl)
    (clampedDistance_computes (WithLp.toLp 2 ![-1])) isProjection_raise (by decide)
  exact ⟨m', p, fromStart _ _ _ rfl, held, inside (.inr (.inr ⟨1, rfl, by decide⟩))⟩

/-- The same iterations with the momentum never held end below zero, beyond one half and zero. -/
theorem extrapolated_solution_is_infeasible :
    let start : Point ℝ [1] := WithLp.toLp 2 ![2]
    let y : Point ℝ [1] := WithLp.toLp 2 ![-1]
    let C : Set (Point ℝ [1]) := nonNegative
    Convex ℝ C ∧ IsProjection C raise ∧
      (clampedDistance y).Computes .nothing (LeastSquares.misfitAt (unit [1]).toEuclideanLin y)
        (· - y) raise ∧
      ∃ m' p, (minimizeFrom (clampedDistance y) (quietPlan 2 true none 2) (.const (ofPoint start))
          none).outcome {} = (.ok ⟨0⟩, m') ∧
        m'.content ⟨0⟩ = some (ofPoint p) ∧ p ∉ C := by
  intro start y C
  refine ⟨convex_nonNegative, isProjection_raise, clampedDistance_computes y, ?_⟩
  obtain ⟨w, s, m', same, finished, invariant⟩ :=
    (start_quietPlan two_pos true none 2 start fun _ _ => rfl).finished (clampedDistance_computes y)
  have moves : ¬ (recurrenceOf (quietPlan 2 true none 2) (· - y) raise 2).Lands 1 := by
    simp [lands_iff, EndsPlain, quietPlan]
  generalize recurrence : recurrenceOf _ (· - y) raise 2 = r at invariant moves
  have held := invariant.iterate
  rw [same] at held
  refine ⟨m', _, (Action.outcome_bind_of_ok rfl).trans finished, held, fun inside => ?_⟩
  let i : Fin (Shape.size [1]) := ⟨0, by decide⟩
  have step (p : Point ℝ [1]) : r.step p i = max (p i - 2⁻¹ * (p i - -1)) 0 := by
    subst recurrence
    exact clampedStep_apply (r := recurrenceOf (quietPlan 2 true none 2) (· - y) raise 2)
      (y := y) rfl rfl p i
  have entry : start i = 2 := rfl
  have first : r.proximalPoint start 1 i = 1 / 2 := by
    rw [Recurrence.proximalPoint, Recurrence.iterate, step, entry]
    norm_num
  have second : r.proximalPoint start 2 i = 0 := by
    rw [Recurrence.proximalPoint, Recurrence.iterate_one, step, first]
    norm_num
  obtain ⟨θ, above, -, beyond⟩ := r.exists_iterate_of_not_lands start moves
  have last : 0 ≤ r.iterate start 2 i := inside i
  rw [beyond, PiLp.add_apply, PiLp.smul_apply, PiLp.sub_apply, first, second, smul_eq_mul] at last
  linarith

end Fista

end ProxGrad
