import Mathlib.Order.Filter.Extr
import ProxGrad.Proofs.Convex.ProximalGradient

/-!
# Rest points of the recurrence

A point that a proximal gradient step leaves where it is holds the whole recurrence in place, with
extrapolation as well as without. Under the bounds that make the steps descend, the points at rest
are the minimizers.
-/

set_option autoImplicit false

namespace ProxGrad

open scoped RealInnerProductSpace

namespace Recurrence

variable {E : Type} [AddCommGroup E] [Module ℝ E]

/-- Two equal proximal points in a row leave nothing to extrapolate, so that a start at rest is all
that there ever is. -/
theorem iterate_of_step_eq {r : Recurrence E} {x₀ : E} (rest : r.step x₀ = x₀) (n : Nat) :
    r.iterate x₀ n = x₀ := by
  induction n using Nat.twoStepInduction with
  | zero => rfl
  | one => exact rest
  | more n before last =>
    rw [iterate, last, before, rest, sub_self, smul_zero, add_zero, ite_self]

end Recurrence

variable {E : Type} [NormedAddCommGroup E] [InnerProductSpace ℝ E] {finite : Set E}
  {f g : E → ℝ} {r : Recurrence E}

/-- The points that a step leaves where they are, are the minimizers. -/
theorem Minimizes.step_eq_iff_isMinOn (minimizes : Minimizes r finite f g) {x : E} :
    r.step x = x ↔ x ∈ finite ∧ IsMinOn (fun u => f u + g u) finite x := by
  constructor
  · intro rest
    refine ⟨rest ▸ minimizes.step_mem x, isMinOn_iff.mpr fun u member => ?_⟩
    have compared := minimizes.step_le x member
    rw [rest, sub_self, norm_zero, inner_zero_right] at compared
    linarith
  · rintro ⟨inside, least⟩
    have compared := minimizes.step_le x inside
    have above : f x + g x ≤ f (r.step x) + g (r.step x) :=
      isMinOn_iff.mp least _ (minimizes.step_mem x)
    rw [sub_self, inner_zero_left, mul_zero, add_zero] at compared
    have moved : r.lipschitz / 2 * ‖r.step x - x‖ ^ 2 ≤ 0 := by linarith
    have square : ‖r.step x - x‖ ^ 2 ≤ 0 :=
      nonpos_of_mul_nonpos_right moved (half_pos minimizes.positive)
    exact sub_eq_zero.mp (norm_eq_zero.mp (pow_eq_zero_iff two_ne_zero |>.mp
      (le_antisymm square (sq_nonneg _))))

end ProxGrad
