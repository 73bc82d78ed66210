import ProxGrad.Proofs.Exact.Objective
import ProxGrad.Terms.Proximal

/-!
# Projections

Proximal maps that project onto a set, whatever their step is. The one that raises negative entries
to zero projects onto the points without such entries.
-/

set_option autoImplicit false

namespace ProxGrad

open Exact

/-- A proximal map that gives, for every step, a nearest point of a set. -/
structure IsProjection {E : Type} [SeminormedAddCommGroup E] (C : Set E) (P : E → ℝ → E) :
    Prop where
  mem (y : E) {step : ℝ} : 0 < step → P y step ∈ C
  nearest (y : E) {step : ℝ} {u : E} : 0 < step → u ∈ C → ‖P y step - y‖ ≤ ‖u - y‖

namespace Exact

variable {shape : List Nat}

def nonNegative : Set (Point ℝ shape) :=
  {p | ∀ i, 0 ≤ p i}

/-- Every negative coordinate raised to zero. -/
noncomputable def raise (y : Point ℝ shape) (_ : ℝ) : Point ℝ shape :=
  WithLp.toLp 2 fun i => max (y i) 0

theorem convex_nonNegative : Convex ℝ (nonNegative : Set (Point ℝ shape)) := by
  intro p first q second a b above above' _ i
  exact add_nonneg (mul_nonneg above (first i)) (mul_nonneg above' (second i))

theorem isProjection_raise : IsProjection (nonNegative : Set (Point ℝ shape)) raise where
  mem y step _ i := le_max_right (y i) 0
  nearest y step u _ inside := by
    rw [EuclideanSpace.norm_eq, EuclideanSpace.norm_eq]
    refine Real.sqrt_le_sqrt (Finset.sum_le_sum fun i _ => ?_)
    have above := inside i
    have each : |max (y i) 0 - y i| ≤ |u i - y i| := by
      rcases le_total 0 (y i) with kept | raised
      · rw [max_eq_left kept, sub_self, abs_zero]
        exact abs_nonneg _
      · rw [max_eq_right raised, abs_of_nonneg (by linarith)]
        exact le_trans (by linarith) (le_abs_self _)
    exact pow_le_pow_left₀ (abs_nonneg _) each 2

theorem maximum_ofPoint_zero (y : Point ℝ shape) (step : ℝ) :
    Calculus.maximum (ofPoint y) (Calculus.ofDecimal 0 0) = .ok (ofPoint (raise y step)) := by
  rw [ofDecimal_zero, maximum_eq_max]
  exact entrywise_ofPoint_scalar max y 0

end Exact

theorem Terms.proxNonNegative_computes {shape : List Nat} {own : TermState (Tensor ℝ)}
    {term : ProximalTerm (Tensor ℝ)}
    (projects : term.prox = fun y _ out => Terms.proxNonNegative y out) :
    term.Computes own (raise : Point ℝ shape → ℝ → Point ℝ shape) where
  prox := by
    intro m out old y step _ foreign sound held
    obtain ⟨stored, written, sound', kept⟩ := overwrites_store sound foreign held (raise y step)
    have entries : Calculus.entries (ofPoint y) = .ok (ofPoint y) := rfl
    refine ⟨_, ?_, written, sound', kept⟩
    rw [projects]
    change (Terms.proxNonNegative (.const (ofPoint y)) out).outcome m = _
    rw [Terms.proxNonNegative, Action.outcome_bind_of_ok (Action.outcome_readRef_const _ m),
      entries, Action.outcome_bind_of_ok (Action.outcome_lift _ m), maximum_ofPoint_zero y step,
      Action.outcome_bind_of_ok (Action.outcome_lift _ m), stored]

end ProxGrad
