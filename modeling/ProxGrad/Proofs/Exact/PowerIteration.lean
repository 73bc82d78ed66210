import ProxGrad.Analysis.PowerIteration
import ProxGrad.Proofs.Convex.Misfit
import ProxGrad.Proofs.Options.Constants

/-!
# Exact power iteration

Each estimate is the squared length of the image of a vector that is not longer than one: the floor
that is added to the length before a vector is divided by it can only shorten the result. So no
estimate exceeds a bound on the operator, wherever the iteration starts and stops.
-/

set_option autoImplicit false

namespace ProxGrad

namespace PowerIteration

open Exact

noncomputable def least : ℝ :=
  1e-12

theorem least_pos : 0 < least := by
  norm_num [least]

section Operations

variable {𝕜 : Type} [RCLike 𝕜]

theorem floor_eq_real : (floor : Tensor 𝕜) = real least := by
  rw [floor, ofDecimal_eq_real]
  norm_num [least]

theorem larger_real (a b : ℝ) : larger (real a) (real b : Tensor 𝕜) = .ok (real (max a b)) :=
  choose_larger_real a b

theorem exists_settled_eq_ok (tolerance estimate last : ℝ) :
    ∃ answer, settled (real tolerance) (real estimate) (real last : Tensor 𝕜) = .ok answer := by
  simp only [settled, sub_real, abs_real, ofDecimal_eq_real, larger_real, mul_real, bind,
    Except.bind]
  exact ⟨_, less_real _ _⟩

variable {shape : List Nat}

theorem div_flatten_ofPoint_real (p : Point 𝕜 shape) {r : ℝ} (nonzero : r ≠ 0) :
    Calculus.div (ofPoint p).flatten (real r) = .ok (ofPoint (r⁻¹ • p)).flatten := by
  have entries : ((ofPoint p).map (· / (r : 𝕜))).flatten = (ofPoint p).flatten.map (· / (r : 𝕜)) :=
    Tensor.ext_of (congrArg (fun n => [n]) (List.length_map _)) rfl
  have whole := div_ofPoint_real p nonzero
  rw [div_of_ne_zero (zero_notMem_real nonzero), entrywise, real, Tensor.zipWith?_scalar] at whole ⊢
  rw [← entries, Except.ok.inj whole]

/-- A vector divided by its length, to which the floor is added: no division is by zero. -/
theorem normalize_flatten_ofPoint (p : Point 𝕜 shape) :
    normalize (ofPoint p).flatten = .ok (ofPoint ((‖p‖ + least)⁻¹ • p)).flatten := by
  have length : Calculus.norm (ofPoint p).flatten = .ok (real ‖p‖) := norm_ofPoint p
  have nonzero : ‖p‖ + least ≠ 0 := (add_pos_of_nonneg_of_pos (norm_nonneg p) least_pos).ne'
  simp only [normalize, length, floor_eq_real, bind, Except.bind, add_real]
  exact div_flatten_ofPoint_real p nonzero

theorem norm_normalized_le (p : Point 𝕜 shape) : ‖(‖p‖ + least)⁻¹ • p‖ ≤ 1 := by
  have positive : 0 < ‖p‖ + least := add_pos_of_nonneg_of_pos (norm_nonneg p) least_pos
  rw [norm_smul, norm_inv, Real.norm_of_nonneg positive.le, inv_mul_le_one₀ positive]
  exact le_add_of_nonneg_right least_pos.le

end Operations

variable {𝕜 : Type} [RCLike 𝕜] {shape observed : List Nat} {term : LeastSquares (Tensor 𝕜)}
  {own : TermState (Tensor 𝕜)} {A : Point 𝕜 shape →ₗ[𝕜] Point 𝕜 observed} {y : Point 𝕜 observed}
  {m : Memory (Tensor 𝕜)}

/-- The squared lengths of the images of vectors that are not longer than one. -/
def Attained (A : Point 𝕜 shape →ₗ[𝕜] Point 𝕜 observed) (c : ℝ) : Prop :=
  ∃ u, ‖u‖ ≤ 1 ∧ ‖A u‖ ^ 2 = c

theorem attained_zero (A : Point 𝕜 shape →ₗ[𝕜] Point 𝕜 observed) : Attained A 0 :=
  ⟨0, by simp, by simp⟩

theorem Attained.le_max {c K : ℝ} (attained : Attained A c)
    (bound : ∀ u, ‖A u‖ ^ 2 ≤ K * ‖u‖ ^ 2) : c ≤ max 0 K := by
  obtain ⟨u, short, rfl⟩ := attained
  have square : ‖u‖ ^ 2 ≤ 1 := pow_le_one₀ (norm_nonneg u) short
  calc ‖A u‖ ^ 2 ≤ K * ‖u‖ ^ 2 := bound u
    _ ≤ max 0 K * ‖u‖ ^ 2 := mul_le_mul_of_nonneg_right (le_max_right 0 K) (sq_nonneg _)
    _ ≤ max 0 K := mul_le_of_le_one_right (le_max_left 0 K) square

theorem outcome_gram (represents : term.Represents own A y) (sound : own.sound m)
    (p : Point 𝕜 shape) :
    (gram term.operator (ofPoint p).flatten).outcome m =
      (.ok (ofPoint (A.adjoint (A p))).flatten, m) := by
  rw [gram, Action.outcome_bind_of_ok (represents.apply p sound)]
  exact represents.adjoint (A p) sound

theorem inner_gram (v : Point 𝕜 shape) :
    Calculus.inner (ofPoint v).flatten (ofPoint (A.adjoint (A v))).flatten =
      .ok (real (‖A v‖ ^ 2)) := by
  rw [inner_flatten_ofPoint, LinearMap.adjoint_inner_right, inner_self_eq_norm_sq]

/-- The steps succeed, whether they are all made or stop early, and give the last estimate or one
that they made. -/
theorem exists_outcome_steps (represents : term.Represents own A y) (sound : own.sound m)
    (tolerance : ℝ) (n : Nat) (v : Point 𝕜 shape) {last : ℝ} (attained : Attained A last) :
    ∃ c, (steps term.operator (real tolerance) n (ofPoint v).flatten (real last)).outcome m =
      (.ok (real c), m) ∧ Attained A c := by
  -- On the steps left, for any vector: only the one after it has to be short.
  induction n generalizing v last with
  | zero => exact ⟨last, rfl, attained⟩
  | succ n ih =>
      have products := outcome_gram represents sound v
      have shortened := normalize_flatten_ofPoint (A.adjoint (A v))
      have short := norm_normalized_le (A.adjoint (A v))
      generalize (‖A.adjoint (A v)‖ + least)⁻¹ • A.adjoint (A v) = u at shortened short
      obtain ⟨answer, asked⟩ := exists_settled_eq_ok (𝕜 := 𝕜) tolerance (‖A u‖ ^ 2) last
      have current : Attained A (‖A u‖ ^ 2) := ⟨u, short, rfl⟩
      rw [steps, Action.outcome_bind_of_ok products, shortened,
        Action.outcome_bind_of_ok (Action.outcome_lift _ m),
        Action.outcome_bind_of_ok (outcome_gram represents sound u), inner_gram,
        Action.outcome_bind_of_ok (Action.outcome_lift _ m), asked,
        Action.outcome_bind_of_ok (Action.outcome_lift _ m)]
      cases answer with
      | true => exact ⟨‖A u‖ ^ 2, rfl, current⟩
      | false => exact ih u current

theorem exists_outcome_estimate (represents : term.Represents own A y) (sound : own.sound m)
    (count : Nat) (tolerance : ℝ) (start : Point 𝕜 shape) :
    ∃ c, (estimate term.operator (.ok count) (real tolerance) (ofPoint start).flatten).outcome m =
        (.ok (real (max c least)),
          { m with calls := m.calls.push (.normal term.operator.columns) }) ∧
      Attained A c := by
  have recorded : own.sound { m with calls := m.calls.push (.normal term.operator.columns) } :=
    own.sound_of_kept (m := m) (fun _ _ _ held => held) sound
  obtain ⟨c, ran, attained⟩ := exists_outcome_steps represents recorded tolerance count
    ((‖start‖ + least)⁻¹ • start) (attained_zero A)
  refine ⟨c, ?_, attained⟩
  rw [estimate, Action.outcome_bind_of_ok (Action.outcome_record _ m), normalize_flatten_ofPoint,
    Action.outcome_bind_of_ok (Action.outcome_lift _ _),
    Action.outcome_bind_of_ok (Action.outcome_lift _ _), ofDecimal_zero,
    Action.outcome_bind_of_ok ran, floor_eq_real, larger_real, Action.outcome_lift]

open FistaOptions in
/-- The estimate for a least-squares term is made without a division by zero, for every operator,
every start and however many steps are allowed: it is at least the floor, and no more than the
larger of the floor and any bound on the operator. So it is a constant that options accept, whatever
number is the same. -/
theorem estimate_is_accepted_and_never_exceeds (given : term.Of own A y) (sound : own.sound m)
    (count : Nat) (tolerance : ℝ) (start : Point 𝕜 shape) :
    ∃ c : ℝ,
      (estimate term.operator (.ok count) (real tolerance) (ofPoint start).flatten).outcome m =
        (.ok (real c), { m with calls := m.calls.push (.normal term.operator.columns) }) ∧
      1e-12 ≤ c ∧
      (∀ K : ℝ, (∀ u, ‖A u‖ ^ 2 ≤ K * ‖u‖ ^ 2) → c ≤ max 1e-12 K) ∧
      ∀ L : Value, L.IsTyped → L.isUnsized = false → (∃ q, L.rational? = some q ∧ (q : ℝ) = c) →
        checkLipschitz L = .ok () ∧
        ∀ (space : Option Nat) (accelerated resetCounter iterations verbose recorded : Value),
          resetCounter.IsCount 1 → iterations.IsCount 0 →
          Grants space L accelerated iterations verbose recorded → ∀ begun, ∃ options done,
            (build space L accelerated resetCounter iterations verbose recorded).outcome begun =
              (.ok options, done) ∧ options.lipschitz = L := by
  obtain ⟨c, ran, attained⟩ :=
    exists_outcome_estimate given.represents sound count tolerance start
  refine ⟨max c least, ran, le_max_right c least, fun K bound => ?_, ?_⟩
  · refine max_le ((attained.le_max bound).trans ?_) (le_max_left _ _)
    exact max_le_max least_pos.le le_rfl
  · rintro L typed sized ⟨q, number, same⟩
    have positive : L.IsPositive := by
      refine ⟨q, number, ?_⟩
      rw [← Rat.cast_pos (K := ℝ), same]
      exact lt_max_of_lt_right least_pos
    have checked : checkLipschitz L = .ok () := ((checkLipschitz_eq typed).2 sized).1 positive
    refine ⟨checked, fun space accelerated resetCounter iterations verbose recorded counter counted
      grants begun => exists_build_eq_ok ?_ grants begun⟩
    rw [checkParameters_eq counter counted, checked, ite_self]

def shear : Matrix (Fin 2) (Fin 2) ℝ :=
  !![1, 1; 0, 1]

theorem norm_sq_shear_apply_le (u : EuclideanSpace ℝ (Fin 2)) :
    ‖shear.toEuclideanLin u‖ ^ 2 ≤ 3 * ‖u‖ ^ 2 := by
  have first : shear.toEuclideanLin u 0 = u 0 + u 1 := by
    simp [shear, Matrix.toLpLin_apply, dotProduct]
  have second : shear.toEuclideanLin u 1 = u 1 := by
    simp [shear, Matrix.toLpLin_apply, dotProduct]
  rw [EuclideanSpace.real_norm_sq_eq, EuclideanSpace.real_norm_sq_eq, Fin.sum_univ_two,
    Fin.sum_univ_two, first, second]
  nlinarith [sq_nonneg (u 0 - u 1), sq_nonneg (u 0)]

/-- Three steps on a shear. -/
theorem estimate_of_shear_never_exceeds :
    let A : Matrix (Fin (Shape.size [2])) (Fin (Shape.size [2])) ℝ := shear
    let start : Point ℝ [2] := WithLp.toLp 2 ![1, -2]
    let operator : LinearOperator (Tensor ℝ) := .ofMatrix .dense 2 2 (.const (Exact.ofMatrix A))
    ∃ c : ℝ, (estimate operator (.ok 3) (real 1e-7) (ofPoint start).flatten).outcome {} =
        (.ok (real c), { calls := #[.normal 2] }) ∧ 1e-12 ≤ c ∧ c ≤ 3 := by
  intro A start operator
  have given : (LeastSquares.ofMatrix .dense [2] [2] (.const (Exact.ofMatrix A))
      (.const (ofPoint start))).Of .nothing A.toEuclideanLin start :=
    .matrix .dense A start (fun m _ => Action.outcome_readRef_const _ m)
      fun m _ => Action.outcome_readRef_const _ m
  obtain ⟨c, ran, above, below, -⟩ :=
    estimate_is_accepted_and_never_exceeds given trivial (m := {}) 3 1e-7 start
  refine ⟨c, ran, above, (below 3 norm_sq_shear_apply_le).trans_eq ?_⟩
  norm_num

end PowerIteration

end ProxGrad
