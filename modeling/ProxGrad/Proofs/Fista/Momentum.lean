import ProxGrad.Proofs.Fista.Refinement
import ProxGrad.Proofs.Fista.Reset

/-!
# The momentum of runs

An accelerated iteration hands on the momentum that follows its own, or the start once the plan
resets it. So the momentum of a run depends on nothing but its start and its plan, whatever the
terms do. In exact arithmetic it is the one of the recurrence: the weights of a run's extrapolations
begin with zero, rise towards one, and are zero again from a reset on.
-/

set_option autoImplicit false

namespace ProxGrad

namespace Fista

section

variable {V : Type} [Calculus V] {objective : Objective V} {plan : Plan V} {w : Workspace V}
  {first s s' : State V} {m m' begun prepared : Memory V} {x : Cell} {n : Nat}

/-- The momentum after `n` iterations of an accelerated run that starts with this one. -/
def momentumAfter (plan : Plan V) (start : V) : Nat → Except Fault V
  | 0 => .ok start
  | n + 1 => do
    let next ← momentum (← momentumAfter plan start n)
    return if plan.resetAfter.any (· ≤ n + 1) then start else next

/-- The weight with which the iteration that is handed a state extrapolates. -/
def State.weight (s : State V) : Except Fault V := do
  let next ← ProxGrad.momentum s.momentum
  Calculus.div (← Calculus.sub s.momentum (Calculus.ofNat 1)) next

/-- The point to which iteration `n` moves the iterate from the state that it is handed and its
proximal point. -/
def State.movedFrom (s : State V) (n : Nat) (z : V) : Except Fault V := do
  moved n s (← ProxGrad.momentum s.momentum) z

/-- Every iteration but the first goes beyond its proximal point by its weight. -/
theorem movedFrom_of_weight {θ : V} (weighs : s.weight = .ok θ) (later : n ≠ 1) (z : V) :
    s.movedFrom n z =
      (do Calculus.add z (← Calculus.mul θ (← Calculus.sub z s.previous))) := by
  obtain ⟨next, grown, rest⟩ := exists_of_bind_eq_ok weighs
  obtain ⟨less, lowered, divided⟩ := exists_of_bind_eq_ok rest
  rw [State.movedFrom, grown]
  change moved n s next z = _
  rw [moved, if_neg later, extrapolate, lowered]
  change (Calculus.div less next >>= _) = _
  rw [divided]
  rfl

theorem movedFrom_one (grows : ∃ next, momentum s.momentum = .ok next) (z : V) :
    s.movedFrom 1 z = .ok z := by
  obtain ⟨next, grown⟩ := grows
  rw [State.movedFrom, grown]
  rfl

/-- The scalars of a run that is set up: the constant and the start, as numbers of the real type of
its point, with the start as the first momentum. -/
theorem exists_scalars_of_setUp {iterations : Nat}
    (opens : (setUp plan x).outcome begun = (.ok (iterations, w, first), prepared)) :
    ∃ start lipschitz, begun.content x = some start ∧ plan.lipschitz = some lipschitz ∧
      Calculus.realScalar start lipschitz = .ok w.lipschitz ∧
      Calculus.realScalar start (Calculus.ofNat 1) = .ok w.start ∧ first.momentum = w.start := by
  obtain ⟨start, lipschitz, held, accepts, prepares⟩ := exists_of_setUp opens
  obtain ⟨_, _, seen, afterRead⟩ := Action.outcome_bind_eq_ok prepares
  obtain ⟨held', rfl⟩ := Action.outcome_read_eq_ok seen
  cases held.symm.trans held'
  obtain ⟨_, _, _, afterProximal⟩ := Action.outcome_bind_eq_ok afterRead
  obtain ⟨_, _, _, afterGradient⟩ := Action.outcome_bind_eq_ok afterProximal
  obtain ⟨_, _, rounded, afterLipschitz⟩ := Action.outcome_bind_eq_ok afterGradient
  obtain ⟨constant, rfl⟩ := Action.outcome_lift_eq_ok rounded
  obtain ⟨_, _, one, afterOne⟩ := Action.outcome_bind_eq_ok afterLipschitz
  obtain ⟨unit, rfl⟩ := Action.outcome_lift_eq_ok one
  cases afterOne
  exact ⟨start, lipschitz, held, (accept_eq_ok_iff.mp accepts).2.1, constant, unit, rfl⟩

theorem momentumAfter_of_afterIterations (accelerated : plan.accelerated = true)
    (fresh : first.accelerated = 0) (start : first.momentum = w.start)
    (ran : (afterIterations objective plan w first n).outcome prepared = (.ok s, m)) :
    momentumAfter plan w.start n = .ok s.momentum ∧ s.accelerated = n := by
  induction n generalizing s m with
  | zero =>
    cases ran
    exact ⟨congrArg Except.ok start.symm, fresh⟩
  | succ n ih =>
    obtain ⟨s₀, m₀, before, last⟩ := exists_of_afterIterations_succ ran
    obtain ⟨earlier, few⟩ := ih before
    obtain ⟨_, _, _, afterEvaluate⟩ := Action.outcome_bind_eq_ok last
    obtain ⟨_, _, _, afterStep⟩ := Action.outcome_bind_eq_ok afterEvaluate
    rw [if_pos accelerated] at afterStep
    obtain ⟨next, previous, grown, rfl⟩ := exists_of_accelerate afterStep
    refine ⟨?_, congrArg (· + 1) few⟩
    rw [momentumAfter, earlier]
    change (momentum s₀.momentum >>= _) = _
    rw [grown, State.advance, few]
    rfl

/-- Where a run stands after some iterations, its momentum is settled by its start and its plan. -/
theorem Reached.momentumAfter (accelerated : plan.accelerated = true)
    (reached : Reached objective plan x begun n w s m) :
    momentumAfter plan w.start n = .ok s.momentum := by
  obtain ⟨iterations, first, prepared, opens, -, ran⟩ := reached
  obtain ⟨_, _, -, -, -, -, start⟩ := exists_scalars_of_setUp opens
  exact (momentumAfter_of_afterIterations accelerated (accelerated_of_setUp opens) start ran).1

end

/-! ## Exact runs -/

open Exact

variable {𝕜 : Type} [RCLike 𝕜] {plan : Plan (Tensor 𝕜)} {s : State (Tensor 𝕜)} {n : Nat}

theorem momentumAfter_real {E : Type} (r : Recurrence E) (same : r.resetAfter = plan.resetAfter)
    (n : Nat) : momentumAfter plan (real 1) n = .ok (real (r.momentum n)) := by
  induction n with
  | zero => rfl
  | succ n ih =>
    rw [momentumAfter, ih]
    change (momentum (real (r.momentum n)) >>= _) = _
    rw [momentum_real, Recurrence.momentum, same]
    cases plan.resetAfter.any (· ≤ n + 1) <;> rfl

theorem Reached.momentum_eq_real {E : Type} {objective : Objective (Tensor 𝕜)} {x : Cell}
    {begun m : Memory (Tensor 𝕜)} {w : Workspace (Tensor 𝕜)}
    (accelerated : plan.accelerated = true) (r : Recurrence E)
    (same : r.resetAfter = plan.resetAfter) (reached : Reached objective plan x begun n w s m) :
    s.momentum = real (r.momentum n) := by
  have settled := reached.momentumAfter accelerated
  obtain ⟨_, _, _, opens, -, -⟩ := reached
  obtain ⟨start, _, -, -, -, unit, -⟩ := exists_scalars_of_setUp opens
  have one : w.start = real 1 := by
    rw [ofNat_eq_real, Nat.cast_one] at unit
    exact (Except.ok.inj unit).symm
  rw [one, momentumAfter_real r same] at settled
  exact (Except.ok.inj settled).symm

theorem weight_eq_real {t : ℝ} (exact : s.momentum = real t) :
    s.weight = .ok (real (Recurrence.weight t)) := by
  rw [State.weight, exact, momentum_real]
  simp only [ofNat_eq_real, Nat.cast_one, sub_real, bind, Except.bind]
  exact div_real _ (nextMomentum_pos t).ne'

/-- How the momentum of the accelerated method grows, and what it makes of the iterations. From any
scalar that is at least one, each next one is the positive root of its equation, and larger by more
than one half and by at most one. In a run, whatever its terms are, iteration `n + 1` goes beyond
its proximal point by a weight `θ n` that is settled by the plan: at least zero and less than one,
zero in the first iteration and after a reset only, and rising up to the reset. -/
theorem scalars_grow_and_weights_rise (accelerated : plan.accelerated = true) :
    (∀ t : ℝ, 1 ≤ t → ∀ k : Nat,
      momenta k (real t : Tensor 𝕜) =
        .ok ((List.range k).map fun j => real (nextMomentum^[j + 1] t)) ∧
      (∀ j < k, nextMomentum^[j + 1] t ^ 2 - nextMomentum^[j + 1] t = nextMomentum^[j] t ^ 2 ∧
        nextMomentum^[j] t + 1 / 2 < nextMomentum^[j + 1] t ∧
        nextMomentum^[j + 1] t ≤ nextMomentum^[j] t + 1) ∧
      t + k / 2 ≤ nextMomentum^[k] t ∧ nextMomentum^[k] t ≤ t + k) ∧
    ∃ θ : Nat → ℝ,
      (∀ n, 0 ≤ θ n ∧ θ n < 1 ∧ (θ n = 0 ↔ n = 0 ∨ ∃ R, plan.resetAfter = some R ∧ R ≤ n)) ∧
      (∀ n, (∀ R, plan.resetAfter = some R → n + 1 < R) → θ n < θ (n + 1)) ∧
      ∀ (objective : Objective (Tensor 𝕜)) x begun n w s m,
        Reached objective plan x begun n w s m →
          s.weight = .ok (real (θ n)) ∧
          ∀ z, s.movedFrom (n + 1) z = if n = 0 then .ok z else
            (do Calculus.add z (← Calculus.mul (real (θ n)) (← Calculus.sub z s.previous))) := by
  let r : Recurrence ℝ := ⟨id, fun y _ => y, 1, plan.accelerated, plan.resetAfter⟩
  refine ⟨fun t one_le k => ⟨momenta_real k t, fun j _ => ?_, iterate_nextMomentum_bounds one_le k⟩,
    fun n => Recurrence.weight (r.momentum n), fun n => ⟨?_, ?_, ?_⟩, fun n free => ?_, ?_⟩
  · have nonneg : 0 ≤ nextMomentum^[j] t := by
      have least := (iterate_nextMomentum_bounds one_le j).1
      have grown : (0 : ℝ) ≤ j / 2 := by positivity
      linarith
    rw [Function.iterate_succ_apply']
    exact ⟨nextMomentum_sq_sub_self _, add_half_lt_nextMomentum _, nextMomentum_le_add_one nonneg⟩
  · exact Recurrence.weight_nonneg (r.one_le_momentum n)
  · exact Recurrence.weight_lt_one _
  · exact (Recurrence.weight_eq_zero_iff _).trans (r.momentum_eq_one_iff n)
  · exact Recurrence.weight_lt_weight (r.one_le_momentum n) (r.momentum_lt_momentum_succ free)
  · intro objective x begun n w s m reached
    have exact := reached.momentum_eq_real accelerated r rfl
    have weighs := weight_eq_real exact
    refine ⟨weighs, fun z => ?_⟩
    split
    case isTrue first =>
      subst first
      exact movedFrom_one ⟨_, exact ▸ momentum_real _⟩ z
    case isFalse later => exact movedFrom_of_weight weighs (by omega) z

/-- Four iterations on a LASSO problem, with a reset after the second: their weights are zero, more
than that, and zero again. -/
theorem lasso_weights_rise_to_the_reset :
    let A : Matrix (Fin (Shape.size [2])) (Fin (Shape.size [2])) ℝ := !![1, 1; 0, 1]
    let y : Point ℝ [2] := WithLp.toLp 2 ![3, -1]
    let plan : Plan (Tensor ℝ) := quietPlan 3 true (some 2) 4
    ∃ θ : Nat → ℝ, θ 0 = 0 ∧ 0 < θ 1 ∧ θ 1 < 1 ∧ θ 2 = 0 ∧ θ 3 = 0 ∧
      ∀ n ≤ 4, ∃ w s m, Reached (lasso A y 1) plan ⟨0⟩ { cells := #[ofPoint y] } n w s m ∧
        s.weight = .ok (real (θ n)) := by
  intro A y plan
  obtain ⟨-, θ, bounds, rises, runs⟩ := @scalars_grow_and_weights_rise ℝ _ plan rfl
  have zero : θ 0 = 0 := (bounds 0).2.2.mpr (.inl rfl)
  have first : θ 0 < θ 1 := rises 0 (by rintro _ ⟨⟩; decide)
  have held (n : Nat) (late : 2 ≤ n) : θ n = 0 := (bounds n).2.2.mpr (.inr ⟨2, rfl, late⟩)
  obtain ⟨w, -, -, stands⟩ := (start_quietPlan three_pos true (some 2) 4 y fun _ _ => rfl).reached
    (lasso_computes A y 1)
  refine ⟨θ, zero, zero ▸ first, (bounds 1).2.1, held 2 le_rfl, held 3 (by decide),
    fun n bound => ?_⟩
  obtain ⟨s, m, reached, -⟩ := stands n bound
  exact ⟨w, s, m, reached, (runs _ _ _ n w s m reached).1⟩

end Fista

end ProxGrad
