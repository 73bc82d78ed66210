import ProxGrad.Proofs.Exact.SoftThreshold
import ProxGrad.Proofs.Exact.SquaredDistance
import ProxGrad.Proofs.Fista.Refinement

/-!
# Denoising

The squared distance from data plus the weighted sum of magnitudes has the soft threshold of the
data for its minimizer. A proximal gradient step brings every coordinate nearer to it by the factor
`1 - 1 / L`, and for the constant one it goes there from anywhere.
-/

set_option autoImplicit false

namespace ProxGrad

open Exact

namespace Recurrence

/-- A step that gives the same point everywhere leaves nothing to extrapolate. -/
theorem iterate_succ_of_step_const {E : Type} [AddCommGroup E] [Module ℝ E] {r : Recurrence E}
    {s : E} (constant : ∀ p, r.step p = s) (x₀ : E) (n : Nat) : r.iterate x₀ (n + 1) = s := by
  cases n with
  | zero => exact constant x₀
  | succ n => rw [iterate, constant, constant, sub_self, smul_zero, add_zero, ite_self]

variable {shape : List Nat} {r : Recurrence (Point ℝ shape)}

theorem abs_iterate_sub_le (plain : r.accelerated = false) {κ : ℝ} (nonneg : 0 ≤ κ)
    {s : Point ℝ shape} (contracts : ∀ p i, |r.step p i - s i| ≤ κ * |p i - s i|)
    (x₀ : Point ℝ shape) (n : Nat) (i : Fin (Shape.size shape)) :
    |r.iterate x₀ n i - s i| ≤ κ ^ n * |x₀ i - s i| := by
  induction n with
  | zero => simp [iterate]
  | succ n ih =>
      rw [r.iterate_of_not_accelerated x₀ plain, proximalPoint]
      calc |r.step (r.iterate x₀ n) i - s i|
          ≤ κ * |r.iterate x₀ n i - s i| := contracts _ i
        _ ≤ κ * (κ ^ n * |x₀ i - s i|) := mul_le_mul_of_nonneg_left ih nonneg
        _ = κ ^ (n + 1) * |x₀ i - s i| := by ring

end Recurrence

variable {shape : List Nat} {y : Point ℝ shape} {lam : ℝ}

/-- The steps of proximal gradient descent on a denoising problem. -/
structure Denoises (r : Recurrence (Point ℝ shape)) (y : Point ℝ shape) (lam : ℝ) : Prop where
  gradient : r.gradient = (· - y)
  prox : r.prox = softThresholdAt lam
  nonneg : 0 ≤ lam
  positive : 0 < r.lipschitz

namespace Denoises

variable {r : Recurrence (Point ℝ shape)}

theorem step_apply (denoises : Denoises r y lam) (p : Point ℝ shape)
    (i : Fin (Shape.size shape)) :
    r.step p i = shrink (r.lipschitz⁻¹ * lam) (p i - r.lipschitz⁻¹ * (p i - y i)) := by
  rw [Recurrence.step, denoises.gradient, denoises.prox, one_div]
  rfl

theorem step_softThresholdAt (denoises : Denoises r y lam) :
    r.step (softThresholdAt lam y 1) = softThresholdAt lam y 1 := by
  -- A step of length one gives it by definition, and has the same points at rest as any other.
  refine PiLp.ext fun i => ?_
  generalize result : softThresholdAt lam y 1 = s
  have whole : shrink (1 * lam) (s i - 1 * (s i - y i)) = s i := by
    rw [one_mul (s i - y i), sub_sub_cancel, ← result]
    rfl
  rw [denoises.step_apply, shrink_sub_eq_iff (inv_pos.mpr denoises.positive) denoises.nonneg,
    ← shrink_sub_eq_iff one_pos denoises.nonneg, whole]

theorem abs_step_sub_le (denoises : Denoises r y lam) (one_le : 1 ≤ r.lipschitz)
    (p : Point ℝ shape) (i : Fin (Shape.size shape)) :
    |r.step p i - softThresholdAt lam y 1 i| ≤
      (1 - 1 / r.lipschitz) * |p i - softThresholdAt lam y 1 i| := by
  have rest := congrArg (fun q : Point ℝ shape => q i) denoises.step_softThresholdAt
  generalize softThresholdAt lam y 1 = s at rest ⊢
  have factor : 0 ≤ 1 - r.lipschitz⁻¹ := sub_nonneg.mpr (inv_le_one_of_one_le₀ one_le)
  have threshold : 0 ≤ r.lipschitz⁻¹ * lam :=
    mul_nonneg (inv_nonneg.mpr denoises.positive.le) denoises.nonneg
  calc |r.step p i - s i| = |r.step p i - r.step s i| := by rw [rest]
    _ ≤ |(p i - r.lipschitz⁻¹ * (p i - y i)) - (s i - r.lipschitz⁻¹ * (s i - y i))| := by
      rw [denoises.step_apply, denoises.step_apply]
      exact abs_shrink_sub_le threshold _ _
    _ = |(1 - r.lipschitz⁻¹) * (p i - s i)| := congrArg _ (by ring)
    _ = (1 - 1 / r.lipschitz) * |p i - s i| := by rw [abs_mul, abs_of_nonneg factor, one_div]

theorem step_of_lipschitz_eq_one (denoises : Denoises r y lam) (one : r.lipschitz = 1)
    (p : Point ℝ shape) : r.step p = softThresholdAt lam y 1 := by
  refine PiLp.ext fun i => ?_
  rw [denoises.step_apply, one, inv_one, one_mul (p i - y i), sub_sub_cancel]
  rfl

end Denoises

/-- The objective `½ ‖x - y‖² + weight · ‖x‖₁` of data and a weight that are read whenever a term is
evaluated. -/
noncomputable def denoising (data weight : Ref (Tensor ℝ)) : Objective (Tensor ℝ) where
  smooth := Terms.squaredDistance data
  proximal := Terms.l1 weight

variable {own : TermState (Tensor ℝ)} {data weight : Ref (Tensor ℝ)}

theorem denoising_computes
    (dataSeen : ∀ m, own.sound m → (Action.readRef data).outcome m = (.ok (ofPoint y), m))
    (weightSeen : ∀ m, own.sound m → (Action.readRef weight).outcome m = (.ok (real lam), m)) :
    (denoising data weight).Computes own (distanceAt y) (· - y) (softThresholdAt lam) where
  smooth := Terms.squaredDistance_computes dataSeen
  proximal := Terms.l1_computes weightSeen

namespace Fista

variable {plan : Plan (Tensor ℝ)} {x : Cell} {m : Memory (Tensor ℝ)} {x₀ : Point ℝ shape} {L : ℝ}
  {count : Nat}

/-- A run on a denoising problem nears the soft threshold of the data, for every constant from one
on: without extrapolation the distance of each coordinate falls by the factor `1 - 1 / L` with every
iteration. For the constant one the run ends there, whatever the plan says of extrapolation and
reset. -/
theorem denoising_reaches_softThreshold
    (dataSeen : ∀ m, own.sound m → (Action.readRef data).outcome m = (.ok (ofPoint y), m))
    (weightSeen : ∀ m, own.sound m → (Action.readRef weight).outcome m = (.ok (real lam), m))
    (nonneg : 0 ≤ lam) (start : Start plan own x m x₀ L count) (one_le : 1 ≤ L) :
    ∃ s : Point ℝ shape,
      Terms.softThreshold (ofPoint y) (real 1) (real lam) = .ok (ofPoint s) ∧
      (plan.accelerated = false → ∀ n ≤ count, ∃ w st m' p,
        Reached (denoising data weight) plan x m n w st m' ∧
        m'.content x = some (ofPoint p) ∧
        ∀ i, |p i - s i| ≤ (1 - 1 / L) ^ n * |x₀ i - s i|) ∧
      ∃ m' p, (minimize (pure (denoising data weight)) plan x).outcome m = (.ok x, m') ∧
        m'.content x = some (ofPoint p) ∧
        (plan.accelerated = false → ∀ i, |p i - s i| ≤ (1 - 1 / L) ^ count * |x₀ i - s i|) ∧
        (L = 1 → 1 ≤ count → p = s) := by
  have computes := denoising_computes dataSeen weightSeen
  have denoises : Denoises (recurrenceOf plan (· - y) (softThresholdAt lam) L) y lam :=
    ⟨rfl, rfl, nonneg, start.positive⟩
  have factor : 0 ≤ 1 - 1 / L := by
    rw [one_div]
    exact sub_nonneg.mpr (inv_le_one_of_one_le₀ one_le)
  have nears (plain : plan.accelerated = false) :=
    Recurrence.abs_iterate_sub_le plain factor (denoises.abs_step_sub_le one_le) x₀
  refine ⟨softThresholdAt lam y 1, softThreshold_ofPoint y 1 lam, ?_, ?_⟩
  · intro plain n bound
    obtain ⟨w, rfl, _, reached⟩ := start.reached computes
    obtain ⟨st, m', stands, invariant⟩ := reached n bound
    exact ⟨w, st, m', _, stands, invariant.iterate, nears plain n⟩
  · obtain ⟨w, st, m', rfl, finished, invariant⟩ := start.finished computes
    refine ⟨m', _, finished, invariant.iterate, fun plain => nears plain count, ?_⟩
    intro one runs
    obtain ⟨n, rfl⟩ := Nat.exists_eq_add_of_le' runs
    exact Recurrence.iterate_succ_of_step_const (denoises.step_of_lipschitz_eq_one one) x₀ n

/-- Three plain iterations from zero towards `2` and `0` with the constant two, and as many with the
constant one, extrapolated and with a reset after the second. -/
theorem denoised_pair :
    let y : Point ℝ [2] := WithLp.toLp 2 ![3, -1 / 2]
    let objective := denoising (.const (ofPoint y)) (.const (real 1))
    ∃ s : Point ℝ [2], Terms.softThreshold (ofPoint y) (real 1) (real 1) = .ok (ofPoint s) ∧
      (∃ m' p, (minimize (pure objective) (quietPlan 2 false none 3) ⟨0⟩).outcome
          { cells := #[ofPoint (0 : Point ℝ [2])] } = (.ok ⟨0⟩, m') ∧
        m'.content ⟨0⟩ = some (ofPoint p) ∧ ∀ i, |p i - s i| ≤ |s i| / 8) ∧
      ∃ m', (minimize (pure objective) (quietPlan 1 true (some 2) 3) ⟨0⟩).outcome
          { cells := #[ofPoint (0 : Point ℝ [2])] } = (.ok ⟨0⟩, m') ∧
        m'.content ⟨0⟩ = some (ofPoint s) := by
  intro y objective
  have seen (v : Tensor ℝ) (m : Memory (Tensor ℝ)) (_ : TermState.nothing.sound m) :
      (Action.readRef (.const v)).outcome m = (.ok v, m) := Action.outcome_readRef_const v m
  obtain ⟨s, thresholded, -, m₁, p₁, finished₁, held₁, nears, -⟩ :=
    denoising_reaches_softThreshold (seen (ofPoint y)) (seen (real 1)) zero_le_one
      (start_quietPlan two_pos false none 3 0 fun _ _ => rfl) one_le_two
  obtain ⟨s', thresholded', -, m₂, p₂, finished₂, held₂, -, reaches⟩ :=
    denoising_reaches_softThreshold (seen (ofPoint y)) (seen (real 1)) zero_le_one
      (start_quietPlan one_pos true (some 2) 3 0 fun _ _ => rfl) le_rfl
  obtain rfl : s = s' := ofPoint_injective (Except.ok.inj (thresholded.symm.trans thresholded'))
  rw [reaches rfl (by decide)] at held₂
  refine ⟨s, thresholded, ⟨m₁, p₁, finished₁, held₁, fun i => ?_⟩, m₂, finished₂, held₂⟩
  have bound := nears rfl i
  rw [PiLp.zero_apply, zero_sub, abs_neg] at bound
  linarith

end Fista

end ProxGrad
