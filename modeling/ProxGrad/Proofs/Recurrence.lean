import Mathlib.Tactic.LinearCombination
import ProxGrad.Proofs.Exact.Calculus
import ProxGrad.Solver.Momentum

/-!
# The accelerated proximal gradient recurrence

The sequences that the method is about, on any real vector space and without arrays: the proximal
points `z n`, the iterates `x n` beyond them, and the momentum scalars `t n`. A reset holds the
momentum at one from then on.
-/

set_option autoImplicit false

namespace ProxGrad

/-- The momentum scalar that follows `t` in exact arithmetic. -/
noncomputable def nextMomentum (t : ℝ) : ℝ :=
  (1 + √(1 + 4 * t ^ 2)) / 2

open Exact in
/-- It is the one that the solver computes in exact arithmetic. -/
theorem momentum_real {𝕜 : Type} [RCLike 𝕜] (t : ℝ) :
    momentum (real t : Tensor 𝕜) = .ok (real (nextMomentum t)) := by
  have nonneg : 0 ≤ 1 + 4 * t ^ 2 := by positivity
  have two : (2 : ℝ) ≠ 0 := by norm_num
  simp only [momentum, square_real, bind, Except.bind, ofNat_eq_real, mul_real, add_real,
    Nat.cast_ofNat, Nat.cast_one]
  rw [sqrt_real nonneg]
  simp only [add_real]
  rw [div_real _ two]
  rfl

/-- The next scalar is the positive root of `u² - u = t²`. -/
theorem nextMomentum_sq_sub_self (t : ℝ) : nextMomentum t ^ 2 - nextMomentum t = t ^ 2 := by
  have root : √(1 + 4 * t ^ 2) ^ 2 = 1 + 4 * t ^ 2 := Real.sq_sqrt (by positivity)
  rw [nextMomentum]
  linear_combination root / 4

theorem add_half_lt_nextMomentum (t : ℝ) : t + 1 / 2 < nextMomentum t := by
  have root : 2 * t < √(1 + 4 * t ^ 2) := Real.lt_sqrt_of_sq_lt (by nlinarith)
  rw [nextMomentum]
  linarith

theorem add_half_le_nextMomentum (t : ℝ) : t + 1 / 2 ≤ nextMomentum t :=
  (add_half_lt_nextMomentum t).le

theorem nextMomentum_le_add_one {t : ℝ} (nonneg : 0 ≤ t) : nextMomentum t ≤ t + 1 := by
  have root : √(1 + 4 * t ^ 2) ≤ 1 + 2 * t := Real.sqrt_le_iff.mpr ⟨by linarith, by nlinarith⟩
  rw [nextMomentum]
  linarith

theorem nextMomentum_pos (t : ℝ) : 0 < nextMomentum t := by
  have root : 0 ≤ √(1 + 4 * t ^ 2) := Real.sqrt_nonneg _
  rw [nextMomentum]
  linarith

theorem nextMomentum_lt_nextMomentum {s t : ℝ} (nonneg : 0 ≤ s) (below : s < t) :
    nextMomentum s < nextMomentum t := by
  have squares : 1 + 4 * s ^ 2 < 1 + 4 * t ^ 2 := by nlinarith
  have roots : √(1 + 4 * s ^ 2) < √(1 + 4 * t ^ 2) :=
    Real.sqrt_lt_sqrt (by positivity) squares
  rw [nextMomentum, nextMomentum]
  linarith

/-- After any number of steps the scalars have grown by at least half of it, and at most by it. -/
theorem iterate_nextMomentum_bounds {t : ℝ} (one_le : 1 ≤ t) (k : Nat) :
    t + k / 2 ≤ nextMomentum^[k] t ∧ nextMomentum^[k] t ≤ t + k := by
  induction k with
  | zero => simp
  | succ k ih =>
    obtain ⟨least, most⟩ := ih
    have nonneg : 0 ≤ nextMomentum^[k] t := by
      have grown : (0 : ℝ) ≤ k / 2 := by positivity
      linarith
    have slow := add_half_le_nextMomentum (nextMomentum^[k] t)
    have fast := nextMomentum_le_add_one nonneg
    rw [Function.iterate_succ_apply']
    push_cast
    constructor <;> linarith

open Exact in
/-- The solver computes the scalars that follow one another. -/
theorem momenta_real {𝕜 : Type} [RCLike 𝕜] (k : Nat) (t : ℝ) :
    momenta k (real t : Tensor 𝕜) =
      .ok ((List.range k).map fun j => real (nextMomentum^[j + 1] t)) := by
  induction k generalizing t with
  | zero => rfl
  | succ k ih =>
    rw [momenta, momentum_real]
    change (do return real (nextMomentum t) :: (← momenta k (real (nextMomentum t)))) = _
    rw [ih, List.range_succ_eq_map, List.map_cons, List.map_map]
    rfl

structure Recurrence (E : Type) where
  gradient : E → E
  prox : E → ℝ → E
  lipschitz : ℝ
  accelerated : Bool
  resetAfter : Option Nat

namespace Recurrence

variable {E : Type}

noncomputable def momentum (r : Recurrence E) : Nat → ℝ
  | 0 => 1
  | n + 1 => if r.resetAfter.any (· ≤ n + 1) then 1 else nextMomentum (r.momentum n)

/-- The weight of the extrapolation after momentum `t`. -/
noncomputable def weight (t : ℝ) : ℝ :=
  (t - 1) / nextMomentum t

theorem momentum_succ_of_unlimited (r : Recurrence E) (unlimited : r.resetAfter = none) (n : Nat) :
    r.momentum (n + 1) = nextMomentum (r.momentum n) := by
  simp [momentum, unlimited]

theorem one_add_half_le_momentum (r : Recurrence E) (unlimited : r.resetAfter = none) (n : Nat) :
    1 + (n : ℝ) / 2 ≤ r.momentum n := by
  induction n with
  | zero => simp [momentum]
  | succ n ih =>
      rw [r.momentum_succ_of_unlimited unlimited]
      have grown := add_half_le_nextMomentum (r.momentum n)
      push_cast
      linarith

theorem one_le_momentum (r : Recurrence E) (n : Nat) : 1 ≤ r.momentum n := by
  induction n with
  | zero => exact le_rfl
  | succ n ih =>
      rw [momentum]
      split_ifs
      · exact le_rfl
      · have grown := add_half_le_nextMomentum (r.momentum n)
        linarith

/-- The momentum is at its start until the first iteration and from a reset on. -/
theorem momentum_eq_one_iff (r : Recurrence E) (n : Nat) :
    r.momentum n = 1 ↔ n = 0 ∨ ∃ k, r.resetAfter = some k ∧ k ≤ n := by
  cases n with
  | zero => exact iff_of_true rfl (.inl rfl)
  | succ n =>
      have reset : r.resetAfter.any (· ≤ n + 1) = true ↔
          ∃ k, r.resetAfter = some k ∧ k ≤ n + 1 := by
        simp [Option.any_eq_true]
      rw [momentum]
      split_ifs with back
      · exact iff_of_true rfl (.inr (reset.mp back))
      · have grown := add_half_le_nextMomentum (r.momentum n)
        have least := r.one_le_momentum n
        refine iff_of_false (by linarith) ?_
        rintro (zero | held)
        · cases zero
        · exact back (reset.mpr held)

theorem momentum_lt_momentum_succ (r : Recurrence E) {n : Nat}
    (free : ∀ k, r.resetAfter = some k → n + 1 < k) : r.momentum n < r.momentum (n + 1) := by
  have grown := add_half_lt_nextMomentum (r.momentum n)
  have unlimited : ¬ r.resetAfter.any (· ≤ n + 1) = true := by
    rw [Option.any_eq_true]
    rintro ⟨k, reset, held⟩
    exact (free k reset).not_ge (of_decide_eq_true held)
  rw [momentum, if_neg unlimited]
  linarith

theorem weight_nonneg {t : ℝ} (one_le : 1 ≤ t) : 0 ≤ weight t :=
  div_nonneg (sub_nonneg.mpr one_le) (nextMomentum_pos t).le

theorem weight_lt_one (t : ℝ) : weight t < 1 := by
  have grown := add_half_le_nextMomentum t
  rw [weight, div_lt_one (nextMomentum_pos t)]
  linarith

/-- A larger momentum has a larger weight. -/
theorem weight_lt_weight {s t : ℝ} (one_le : 1 ≤ s) (below : s < t) : weight s < weight t := by
  have first := nextMomentum_sq_sub_self s
  have second := nextMomentum_sq_sub_self t
  have above := nextMomentum_lt_nextMomentum (zero_le_one.trans one_le) below
  have positive := nextMomentum_pos s
  rw [weight, weight, div_lt_div_iff₀ positive (nextMomentum_pos t)]
  generalize nextMomentum s = a at *
  generalize nextMomentum t = b at *
  -- The scalars grow by a greater factor than those that follow them.
  have factor : s * b < t * a := by
    refine lt_of_pow_lt_pow_left₀ 2 (by nlinarith) ?_
    have gap : (t * a) ^ 2 - (s * b) ^ 2 = a * b * (b - a) := by
      rw [mul_pow, mul_pow, ← first, ← second]
      ring
    have grown : 0 < a * b * (b - a) :=
      mul_pos (mul_pos positive (positive.trans above)) (sub_pos.mpr above)
    linarith
  linarith

theorem weight_eq_zero_iff (t : ℝ) : weight t = 0 ↔ t = 1 := by
  rw [weight, div_eq_zero_iff, or_iff_left (nextMomentum_pos t).ne', sub_eq_zero]

variable [AddCommGroup E] [Module ℝ E]

noncomputable def step (r : Recurrence E) (x : E) : E :=
  r.prox (x - r.lipschitz⁻¹ • r.gradient x) (1 / r.lipschitz)

/-- The iterate after `n` iterations from `x₀`. -/
noncomputable def iterate (r : Recurrence E) (x₀ : E) : Nat → E
  | 0 => x₀
  | 1 => r.step x₀
  | n + 2 =>
    let z := r.step (r.iterate x₀ (n + 1))
    if r.accelerated then z + weight (r.momentum (n + 1)) • (z - r.step (r.iterate x₀ n)) else z

/-- The proximal point of iteration `n`, which for `n = 0` is the start. -/
noncomputable def proximalPoint (r : Recurrence E) (x₀ : E) : Nat → E
  | 0 => x₀
  | n + 1 => r.step (r.iterate x₀ n)

variable (r : Recurrence E) (x₀ : E)

theorem iterate_one : r.iterate x₀ 1 = r.proximalPoint x₀ 1 := rfl

theorem iterate_of_not_accelerated (plain : r.accelerated = false) (n : Nat) :
    r.iterate x₀ n = r.proximalPoint x₀ n := by
  match n with
  | 0 => rfl
  | 1 => rfl
  | n + 2 => simp [iterate, plain, proximalPoint]

theorem iterate_add_two (accelerated : r.accelerated = true) (n : Nat) :
    r.iterate x₀ (n + 2) = r.proximalPoint x₀ (n + 2) +
      weight (r.momentum (n + 1)) • (r.proximalPoint x₀ (n + 2) - r.proximalPoint x₀ (n + 1)) := by
  simp [iterate, accelerated, proximalPoint]

/-- Whether iteration `n + 1` ends at its proximal point: without acceleration, in the first
iteration, and once the momentum is held. -/
def Lands (n : Nat) : Prop :=
  r.accelerated = false ∨ n = 0 ∨ ∃ k, r.resetAfter = some k ∧ k ≤ n

theorem iterate_of_lands {n : Nat} (lands : r.Lands n) :
    r.iterate x₀ (n + 1) = r.proximalPoint x₀ (n + 1) := by
  cases mode : r.accelerated with
  | false => exact r.iterate_of_not_accelerated x₀ mode (n + 1)
  | true =>
      obtain plain | held := lands
      · cases mode.symm.trans plain
      · cases n with
        | zero => rfl
        | succ n =>
            have start := (r.momentum_eq_one_iff (n + 1)).mpr held
            rw [r.iterate_add_two x₀ mode, (weight_eq_zero_iff _).mpr start, zero_smul, add_zero]

/-- The recurrence without extrapolation. -/
def plain (r : Recurrence E) : Recurrence E :=
  { r with accelerated := false }

/-- From where all iterations end at their proximal points, the recurrence goes on as it would from
there without extrapolation. -/
theorem iterate_add_of_lands {N : Nat} (lands : ∀ n, N ≤ n → r.Lands n) (k : Nat) :
    r.iterate x₀ (N + k) = r.plain.iterate (r.iterate x₀ N) k := by
  induction k with
  | zero => rfl
  | succ k ih =>
      rw [← Nat.add_assoc, r.iterate_of_lands x₀ (lands (N + k) (Nat.le_add_right N k)),
        r.plain.iterate_of_not_accelerated _ rfl, proximalPoint, proximalPoint, ih]
      rfl

/-- Otherwise it goes beyond, by a positive part of the way from the proximal point before. -/
theorem exists_iterate_of_not_lands {n : Nat} (moves : ¬ r.Lands n) :
    ∃ θ : ℝ, 0 < θ ∧ θ < 1 ∧ r.iterate x₀ (n + 1) = r.proximalPoint x₀ (n + 1) +
      θ • (r.proximalPoint x₀ (n + 1) - r.proximalPoint x₀ n) := by
  have accelerated : r.accelerated = true := by
    by_contra plain
    exact moves (.inl (Bool.not_eq_true _ ▸ plain))
  cases n with
  | zero => exact absurd (.inr (.inl rfl)) moves
  | succ n =>
      have beyond : r.momentum (n + 1) ≠ 1 := fun start =>
        moves (.inr ((r.momentum_eq_one_iff (n + 1)).mp start))
      have nonzero : weight (r.momentum (n + 1)) ≠ 0 := mt (weight_eq_zero_iff _).mp beyond
      have nonneg := weight_nonneg (r.one_le_momentum (n + 1))
      exact ⟨weight (r.momentum (n + 1)), nonneg.lt_of_ne' nonzero, weight_lt_one _,
        r.iterate_add_two x₀ accelerated n⟩

/-! ## Recurrences on two spaces -/

variable {F : Type} [AddCommGroup F] [Module ℝ F]

/-- A linear map carries one recurrence to another that has the same parameters, if the gradient and
the proximal map commute with it. -/
structure Carries (e : E →ₗ[ℝ] F) (r : Recurrence E) (r' : Recurrence F) : Prop where
  gradient (x : E) : r'.gradient (e x) = e (r.gradient x)
  prox (y : E) (step : ℝ) : r'.prox (e y) step = e (r.prox y step)
  lipschitz : r'.lipschitz = r.lipschitz
  accelerated : r'.accelerated = r.accelerated
  resetAfter : r'.resetAfter = r.resetAfter

namespace Carries

variable {e : E →ₗ[ℝ] F} {r : Recurrence E} {r' : Recurrence F}

theorem momentum (carries : Carries e r r') (n : Nat) : r'.momentum n = r.momentum n := by
  induction n with
  | zero => rfl
  | succ n ih => rw [Recurrence.momentum, Recurrence.momentum, carries.resetAfter, ih]

theorem step (carries : Carries e r r') (x : E) : r'.step (e x) = e (r.step x) := by
  rw [Recurrence.step, Recurrence.step, carries.gradient, carries.lipschitz, ← map_smul, ← map_sub,
    carries.prox]

/-- It carries every iterate to the iterate from where it takes the start. -/
theorem iterate (carries : Carries e r r') (x₀ : E) :
    ∀ n, r'.iterate (e x₀) n = e (r.iterate x₀ n)
  | 0 => rfl
  | 1 => carries.step x₀
  | n + 2 => by
    rw [Recurrence.iterate, Recurrence.iterate, carries.iterate x₀ (n + 1), carries.iterate x₀ n,
      carries.step, carries.step, carries.momentum, carries.accelerated]
    cases r.accelerated <;> simp

end Carries

end Recurrence

end ProxGrad
