import Mathlib.Analysis.Convex.Function
import Mathlib.Analysis.InnerProductSpace.Basic
import ProxGrad.Proofs.Recurrence

/-!
# Rates of proximal gradient steps

What a proximal gradient step does to the sum of a smooth and a convex function, and what follows
for whole sequences: the plain iterates descend at a rate of `1 / n`, and the accelerated proximal
points at a rate of `1 / (n + 1)²`. The convex function is finite on a convex set only, so that
indicators are among them.
-/

set_option autoImplicit false

namespace ProxGrad

open scoped RealInnerProductSpace

variable {E : Type} [NormedAddCommGroup E] [InnerProductSpace ℝ E]

/-- A function that lies above its linear approximations, and below them plus a quadratic. -/
structure SmoothBounds (f : E → ℝ) (G : E → E) (L : ℝ) : Prop where
  lower (u v : E) : f u + ⟪G u, v - u⟫ ≤ f v
  upper (u v : E) : f v ≤ f u + ⟪G u, v - u⟫ + L / 2 * ‖v - u‖ ^ 2

/-- A map that gives minimizers of `½ ‖u - y‖² + step · g u` over the set where `g` is finite. -/
structure IsProximalMap (finite : Set E) (g : E → ℝ) (P : E → ℝ → E) : Prop where
  mem (y : E) {step : ℝ} : 0 < step → P y step ∈ finite
  minimizes (y : E) {step : ℝ} {u : E} : 0 < step → u ∈ finite →
    1 / 2 * ‖P y step - y‖ ^ 2 + step * g (P y step) ≤ 1 / 2 * ‖u - y‖ ^ 2 + step * g u

variable {finite : Set E} {g : E → ℝ} {P : E → ℝ → E}

private theorem IsProximalMap.segment (prox : IsProximalMap finite g P)
    (convex : ConvexOn ℝ finite g) (y : E) {step : ℝ} (positive : 0 < step) {u : E}
    (member : u ∈ finite) {θ : ℝ} (above : 0 < θ) (below : θ ≤ 1) :
    0 ≤ step * (g u - g (P y step)) - ⟪y - P y step, u - P y step⟫ +
      θ / 2 * ‖u - P y step‖ ^ 2 := by
  generalize held : P y step = p
  have inside : p ∈ finite := held ▸ prox.mem y positive
  have onSegment : p + θ • (u - p) = (1 - θ) • p + θ • u := by module
  have least := prox.minimizes y positive
    (onSegment ▸ convex.1 inside member (by linarith) above.le (by ring) :
      p + θ • (u - p) ∈ finite)
  have bent : g (p + θ • (u - p)) ≤ (1 - θ) * g p + θ * g u := by
    rw [onSegment]
    exact convex.2 inside member (by linarith) above.le (by ring)
  have square : ‖p + θ • (u - p) - y‖ ^ 2 =
      ‖p - y‖ ^ 2 - 2 * θ * ⟪y - p, u - p⟫ + θ ^ 2 * ‖u - p‖ ^ 2 := by
    have split : p + θ • (u - p) - y = θ • (u - p) - (y - p) := by module
    rw [split, norm_sub_sq_real, norm_smul, real_inner_smul_left, real_inner_comm, mul_pow,
      Real.norm_eq_abs, sq_abs, norm_sub_rev y p]
    ring
  rw [held, square] at least
  have scaled : 0 ≤ θ * (step * (g u - g p) - ⟪y - p, u - p⟫ + θ / 2 * ‖u - p‖ ^ 2) := by
    have weighted := mul_le_mul_of_nonneg_left bent positive.le
    nlinarith
  exact nonneg_of_mul_nonneg_right scaled above

/-- The variational inequality of a proximal point. -/
theorem IsProximalMap.inner_le (prox : IsProximalMap finite g P) (convex : ConvexOn ℝ finite g)
    (y : E) {step : ℝ} (positive : 0 < step) {u : E} (member : u ∈ finite) :
    step * g (P y step) + ⟪y - P y step, u - P y step⟫ ≤ step * g u := by
  have limit : 0 ≤ step * (g u - g (P y step)) - ⟪y - P y step, u - P y step⟫ := by
    refine le_of_forall_pos_le_add fun ε above => ?_
    have room : 0 < ‖u - P y step‖ ^ 2 + 1 := by positivity
    have small : 0 < min 1 (ε / (‖u - P y step‖ ^ 2 + 1)) := lt_min one_pos (div_pos above room)
    have near := prox.segment convex y positive member small (min_le_left _ _)
    have bound : min 1 (ε / (‖u - P y step‖ ^ 2 + 1)) * (‖u - P y step‖ ^ 2 + 1) ≤ ε :=
      (le_div_iff₀ room).mp (min_le_right _ _)
    nlinarith [sq_nonneg ‖u - P y step‖]
  linarith

/-- The data of a recurrence that minimizes `f + g`. -/
structure Minimizes (r : Recurrence E) (finite : Set E) (f g : E → ℝ) : Prop where
  positive : 0 < r.lipschitz
  smooth : SmoothBounds f r.gradient r.lipschitz
  convex : ConvexOn ℝ finite g
  prox : IsProximalMap finite g r.prox

namespace Minimizes

variable {r : Recurrence E} {f : E → ℝ}

theorem step_mem (minimizes : Minimizes r finite f g) (y : E) : r.step y ∈ finite :=
  minimizes.prox.mem _ (one_div_pos.mpr minimizes.positive)

/-- A step from `y` compared with any point. -/
theorem step_le (minimizes : Minimizes r finite f g) (y : E) {u : E} (member : u ∈ finite) :
    f (r.step y) + g (r.step y) + r.lipschitz / 2 * ‖r.step y - y‖ ^ 2 +
      r.lipschitz * ⟪y - u, r.step y - y⟫ ≤ f u + g u := by
  obtain ⟨positive, smooth, convex, prox⟩ := minimizes
  have variation := prox.inner_le convex (y - r.lipschitz⁻¹ • r.gradient y)
    (one_div_pos.mpr positive) member
  change 1 / r.lipschitz * g (r.step y) +
    ⟪y - r.lipschitz⁻¹ • r.gradient y - r.step y, u - r.step y⟫ ≤ 1 / r.lipschitz * g u at variation
  generalize r.step y = p at *
  have scaled : g p + r.lipschitz * ⟪y - p, u - p⟫ - ⟪r.gradient y, u - p⟫ ≤ g u := by
    have split : y - r.lipschitz⁻¹ • r.gradient y - p =
        (y - p) - r.lipschitz⁻¹ • r.gradient y := by module
    rw [split, inner_sub_left, real_inner_smul_left] at variation
    have cleared := mul_le_mul_of_nonneg_left variation positive.le
    field_simp at cleared
    linarith
  have above := smooth.upper y p
  have below := smooth.lower y u
  have direction : ⟪r.gradient y, u - p⟫ = ⟪r.gradient y, u - y⟫ - ⟪r.gradient y, p - y⟫ := by
    rw [← inner_sub_right]
    congr 1
    module
  have product : ⟪y - p, u - p⟫ = ⟪y - u, p - y⟫ + ‖p - y‖ ^ 2 := by
    have split : u - p = -(y - u) - (p - y) := by module
    rw [split, ← neg_sub p y, inner_sub_right, inner_neg_neg, inner_neg_left,
      real_inner_self_eq_norm_sq, real_inner_comm]
    ring
  rw [product, direction] at scaled
  linarith

/-- A step from `y` compared with any point, by the distances to that point. -/
theorem step_sub_le (minimizes : Minimizes r finite f g) (y : E) {u : E} (member : u ∈ finite) :
    f (r.step y) + g (r.step y) - (f u + g u) ≤
      r.lipschitz / 2 * (‖y - u‖ ^ 2 - ‖r.step y - u‖ ^ 2) := by
  have compared := minimizes.step_le y member
  have square : ‖r.step y - u‖ ^ 2 =
      ‖y - u‖ ^ 2 + 2 * ⟪y - u, r.step y - y⟫ + ‖r.step y - y‖ ^ 2 := by
    rw [← norm_add_sq_real]
    congr 2
    module
  rw [square]
  linarith

theorem proximalPoint_mem (minimizes : Minimizes r finite f g) (x₀ : E) {n : Nat}
    (one_le : 1 ≤ n) : r.proximalPoint x₀ n ∈ finite := by
  obtain ⟨n, rfl⟩ := Nat.exists_eq_add_of_le' one_le
  exact minimizes.step_mem _

/-! ## Plain iterates -/

theorem iterate_succ_of_plain {x₀ : E} (plain : r.accelerated = false) (n : Nat) :
    r.iterate x₀ (n + 1) = r.step (r.iterate x₀ n) :=
  r.iterate_of_not_accelerated x₀ plain (n + 1)

theorem iterate_descends (minimizes : Minimizes r finite f g) (plain : r.accelerated = false)
    (x₀ : E) (n : Nat) (member : r.iterate x₀ n ∈ finite) :
    f (r.iterate x₀ (n + 1)) + g (r.iterate x₀ (n + 1)) ≤
      f (r.iterate x₀ n) + g (r.iterate x₀ n) -
        r.lipschitz / 2 * ‖r.iterate x₀ (n + 1) - r.iterate x₀ n‖ ^ 2 := by
  have compared := minimizes.step_le (r.iterate x₀ n) member
  rw [sub_self, inner_zero_left, mul_zero, add_zero] at compared
  rw [iterate_succ_of_plain plain]
  linarith

theorem iterate_mem_of_plain (minimizes : Minimizes r finite f g) (plain : r.accelerated = false)
    (x₀ : E) (n : Nat) : r.iterate x₀ (n + 1) ∈ finite := by
  rw [iterate_succ_of_plain plain]
  exact minimizes.step_mem _

/-- The gaps to a value add up to no more than the squared distances allow. -/
theorem mul_iterate_sub_le (minimizes : Minimizes r finite f g) (plain : r.accelerated = false)
    (x₀ : E) {u : E} (member : u ∈ finite) (n : Nat) :
    n * (f (r.iterate x₀ n) + g (r.iterate x₀ n) - (f u + g u)) ≤
      r.lipschitz / 2 * (‖x₀ - u‖ ^ 2 - ‖r.iterate x₀ n - u‖ ^ 2) := by
  induction n with
  | zero => simp [Recurrence.iterate]
  | succ n ih =>
      have last := minimizes.step_sub_le (r.iterate x₀ n) member
      rw [← iterate_succ_of_plain plain] at last
      have before : (n : ℝ) * (f (r.iterate x₀ (n + 1)) + g (r.iterate x₀ (n + 1))) ≤
          n * (f (r.iterate x₀ n) + g (r.iterate x₀ n)) := by
        cases n with
        | zero => simp
        | succ n =>
            have descends := minimizes.iterate_descends plain x₀ (n + 1)
              (minimizes.iterate_mem_of_plain plain x₀ n)
            refine mul_le_mul_of_nonneg_left ?_ (Nat.cast_nonneg _)
            have positive := minimizes.positive
            have square : 0 ≤ r.lipschitz / 2 *
                ‖r.iterate x₀ (n + 1 + 1) - r.iterate x₀ (n + 1)‖ ^ 2 := by positivity
            linarith
      push_cast
      linarith

theorem iterate_sub_le (minimizes : Minimizes r finite f g) (plain : r.accelerated = false)
    (x₀ : E) {u : E} (member : u ∈ finite) {n : Nat} (one_le : 1 ≤ n) :
    f (r.iterate x₀ n) + g (r.iterate x₀ n) - (f u + g u) ≤
      r.lipschitz * ‖x₀ - u‖ ^ 2 / (2 * n) := by
  have total := minimizes.mul_iterate_sub_le plain x₀ member n
  have count : (0 : ℝ) < n := by exact_mod_cast one_le
  have distance : 0 ≤ r.lipschitz / 2 * ‖r.iterate x₀ n - u‖ ^ 2 := by
    have positive := minimizes.positive
    positivity
  rw [le_div_iff₀ (by positivity)]
  linarith

/-! ## Accelerated proximal points -/

/-- The momentum times an iterate, in terms of the proximal points around it. -/
theorem momentum_smul_iterate (accelerated : r.accelerated = true) (unlimited : r.resetAfter = none)
    (x₀ : E) (n : Nat) :
    r.momentum (n + 1) • r.iterate x₀ (n + 1) = r.momentum (n + 1) • r.proximalPoint x₀ (n + 1) +
      (r.momentum n - 1) • (r.proximalPoint x₀ (n + 1) - r.proximalPoint x₀ n) := by
  cases n with
  | zero => simp [Recurrence.iterate_one, Recurrence.momentum]
  | succ n =>
      have weight : r.momentum (n + 1 + 1) * Recurrence.weight (r.momentum (n + 1)) =
          r.momentum (n + 1) - 1 := by
        rw [r.momentum_succ_of_unlimited unlimited, Recurrence.weight]
        exact mul_div_cancel₀ _ (nextMomentum_pos _).ne'
      rw [r.iterate_add_two x₀ accelerated, smul_add, smul_smul, weight]

/-- The potential of the accelerated method after proximal point `n + 1`. -/
noncomputable def potential (r : Recurrence E) (f g : E → ℝ) (x₀ u : E) (n : Nat) : ℝ :=
  r.momentum n ^ 2 *
      (f (r.proximalPoint x₀ (n + 1)) + g (r.proximalPoint x₀ (n + 1)) - (f u + g u)) +
    r.lipschitz / 2 * ‖r.momentum n • r.proximalPoint x₀ (n + 1) -
      (r.momentum n - 1) • r.proximalPoint x₀ n - u‖ ^ 2

theorem potential_zero_le (minimizes : Minimizes r finite f g) (x₀ : E) {u : E}
    (member : u ∈ finite) : potential r f g x₀ u 0 ≤ r.lipschitz / 2 * ‖x₀ - u‖ ^ 2 := by
  have first := minimizes.step_sub_le x₀ member
  simp only [potential, Recurrence.momentum, Recurrence.proximalPoint, Recurrence.iterate, one_pow,
    one_mul, one_smul, sub_self, zero_smul, sub_zero]
  linarith

theorem potential_succ_le (minimizes : Minimizes r finite f g) (accelerated : r.accelerated = true)
    (unlimited : r.resetAfter = none) (x₀ : E) {u : E} (member : u ∈ finite) (n : Nat) :
    potential r f g x₀ u (n + 1) ≤ potential r f g x₀ u n := by
  have toTarget := minimizes.step_le (r.iterate x₀ (n + 1)) member
  have toPrevious := minimizes.step_le (r.iterate x₀ (n + 1)) (minimizes.step_mem (r.iterate x₀ n))
  have combined := momentum_smul_iterate accelerated unlimited x₀ n
  have large : 1 ≤ r.momentum (n + 1) := by
    have grown := r.one_add_half_le_momentum unlimited (n + 1)
    have count : (0 : ℝ) ≤ (n + 1 : Nat) := Nat.cast_nonneg _
    linarith
  have quadratic : r.momentum (n + 1) ^ 2 - r.momentum (n + 1) = r.momentum n ^ 2 := by
    rw [r.momentum_succ_of_unlimited unlimited]
    exact nextMomentum_sq_sub_self _
  change r.momentum (n + 1) ^ 2 * (f (r.step (r.iterate x₀ (n + 1))) +
      g (r.step (r.iterate x₀ (n + 1))) - (f u + g u)) +
    r.lipschitz / 2 * ‖r.momentum (n + 1) • r.step (r.iterate x₀ (n + 1)) -
      (r.momentum (n + 1) - 1) • r.proximalPoint x₀ (n + 1) - u‖ ^ 2 ≤
    r.momentum n ^ 2 * (f (r.proximalPoint x₀ (n + 1)) + g (r.proximalPoint x₀ (n + 1)) -
      (f u + g u)) + r.lipschitz / 2 * ‖r.momentum n • r.proximalPoint x₀ (n + 1) -
        (r.momentum n - 1) • r.proximalPoint x₀ n - u‖ ^ 2
  change _ + r.lipschitz * ⟪r.iterate x₀ (n + 1) - r.proximalPoint x₀ (n + 1), _⟫ ≤
    f (r.proximalPoint x₀ (n + 1)) + g (r.proximalPoint x₀ (n + 1)) at toPrevious
  generalize r.step (r.iterate x₀ (n + 1)) = p at *
  generalize r.momentum (n + 1) = t, r.momentum n = s, r.iterate x₀ (n + 1) = y,
    r.proximalPoint x₀ (n + 1) = z, r.proximalPoint x₀ n = before at *
  have start : s • z - (s - 1) • before - u = (y - u) + (t - 1) • (y - z) := by
    have gathered : (y - u) + (t - 1) • (y - z) = t • y - (t - 1) • z - u := by module
    rw [gathered, combined]
    module
  have finish : t • p - (t - 1) • z - u = (y - u) + (t - 1) • (y - z) + t • (p - y) := by
    module
  have square : ‖(y - u) + (t - 1) • (y - z) + t • (p - y)‖ ^ 2 =
      ‖(y - u) + (t - 1) • (y - z)‖ ^ 2 +
        2 * t * (⟪y - u, p - y⟫ + (t - 1) * ⟪y - z, p - y⟫) + t ^ 2 * ‖p - y‖ ^ 2 := by
    rw [norm_add_sq_real, real_inner_smul_right, inner_add_left, real_inner_smul_left, norm_smul,
      mul_pow, Real.norm_eq_abs, sq_abs]
    ring
  rw [start, finish, square, ← quadratic]
  have weighted := mul_le_mul_of_nonneg_left toTarget (by linarith : 0 ≤ t)
  have weighted' := mul_le_mul_of_nonneg_left toPrevious
    (mul_nonneg (by linarith) (by linarith) : 0 ≤ t * (t - 1))
  linarith

theorem potential_le (minimizes : Minimizes r finite f g) (accelerated : r.accelerated = true)
    (unlimited : r.resetAfter = none) (x₀ : E) {u : E} (member : u ∈ finite) (n : Nat) :
    potential r f g x₀ u n ≤ r.lipschitz / 2 * ‖x₀ - u‖ ^ 2 := by
  induction n with
  | zero => exact minimizes.potential_zero_le x₀ member
  | succ n ih => exact (minimizes.potential_succ_le accelerated unlimited x₀ member n).trans ih

/-- The rate of accelerated proximal points. -/
theorem proximalPoint_sub_le (minimizes : Minimizes r finite f g)
    (accelerated : r.accelerated = true) (unlimited : r.resetAfter = none) (x₀ : E) {u : E}
    (member : u ∈ finite) {n : Nat} (one_le : 1 ≤ n) :
    f (r.proximalPoint x₀ n) + g (r.proximalPoint x₀ n) - (f u + g u) ≤
      2 * r.lipschitz * ‖x₀ - u‖ ^ 2 / (n + 1) ^ 2 := by
  obtain ⟨n, rfl⟩ := Nat.exists_eq_add_of_le' one_le
  have bounded := minimizes.potential_le accelerated unlimited x₀ member n
  have positive := minimizes.positive
  have large := r.one_add_half_le_momentum unlimited n
  rw [potential] at bounded
  generalize f (r.proximalPoint x₀ (n + 1)) + g (r.proximalPoint x₀ (n + 1)) - (f u + g u) = gap
    at *
  have weighted : r.momentum n ^ 2 * gap ≤ r.lipschitz / 2 * ‖x₀ - u‖ ^ 2 := by
    have square : 0 ≤ r.lipschitz / 2 * ‖r.momentum n • r.proximalPoint x₀ (n + 1) -
        (r.momentum n - 1) • r.proximalPoint x₀ n - u‖ ^ 2 := by positivity
    linarith
  rw [le_div_iff₀ (by positivity)]
  push_cast
  rcases le_total gap 0 with below | above
  · have bound : gap * (n + 1 + 1 : ℝ) ^ 2 ≤ 0 :=
      mul_nonpos_of_nonpos_of_nonneg below (by positivity)
    have room : 0 ≤ 2 * r.lipschitz * ‖x₀ - u‖ ^ 2 := by positivity
    exact bound.trans room
  · have grown : (1 + (n : ℝ) / 2) ^ 2 * gap ≤ r.momentum n ^ 2 * gap :=
      mul_le_mul_of_nonneg_right (pow_le_pow_left₀ (by positivity) large 2) above
    linarith

end Minimizes

end ProxGrad
