import ProxGrad.Proofs.Fista.Calls

/-!
# Resets that come too late

A reset replaces the momentum that an iteration hands to the next. Where none comes before the last
iteration, the run is the one without a reset, whatever the numbers are.
-/

set_option autoImplicit false

namespace ProxGrad

variable {V : Type}

def Plan.withoutReset (plan : Plan V) : Plan V :=
  { plan with resetAfter := none }

namespace Fista

variable [Calculus V] {objective : Objective V} {plan : Plan V} {w : Workspace V}
  {first s s' : State V} {m m' begun prepared : Memory V} {x : Cell} {n R : Nat}

theorem accelerated_of_setUp {iterations : Nat}
    (opens : (setUp plan x).outcome begun = (.ok (iterations, w, first), prepared)) :
    first.accelerated = 0 := by
  obtain ⟨_, _, -, -, prepares⟩ := exists_of_setUp opens
  obtain ⟨_, _, -, -, -, -, fresh⟩ := exists_of_prepare prepares
  exact fresh

theorem exists_of_accelerate (ran : (accelerate plan w n s).outcome m = (.ok s', m')) :
    ∃ next previous, momentum s.momentum = .ok next ∧ s' = s.advance plan w next previous := by
  obtain ⟨next, _, grows, afterNext⟩ := Action.outcome_bind_eq_ok ran
  obtain ⟨_, _, _, afterRead⟩ := Action.outcome_bind_eq_ok afterNext
  obtain ⟨_, _, _, afterMoved⟩ := Action.outcome_bind_eq_ok afterRead
  obtain ⟨_, _, _, afterStore⟩ := Action.outcome_bind_eq_ok afterMoved
  obtain ⟨_, _, _, finish⟩ := Action.outcome_bind_eq_ok afterStore
  obtain ⟨grown, _⟩ := Action.outcome_lift_eq_ok grows
  cases finish
  exact ⟨next, _, grown, rfl⟩

theorem accelerated_le_of_afterIterations (fresh : first.accelerated = 0)
    (ran : (afterIterations objective plan w first n).outcome prepared = (.ok s, m)) :
    s.accelerated ≤ n := by
  induction n generalizing s m with
  | zero =>
    cases ran
    exact fresh.le
  | succ n ih =>
    obtain ⟨s₀, m₀, before, last⟩ := exists_of_afterIterations_succ ran
    have earlier := ih before
    obtain ⟨_, _, _, afterEvaluate⟩ := Action.outcome_bind_eq_ok last
    obtain ⟨_, _, _, afterStep⟩ := Action.outcome_bind_eq_ok afterEvaluate
    cases mode : plan.accelerated with
    | true =>
      rw [if_pos mode] at afterStep
      obtain ⟨_, _, -, rfl⟩ := exists_of_accelerate afterStep
      exact Nat.succ_le_succ earlier
    | false =>
      rw [if_neg (mode ▸ Bool.false_ne_true)] at afterStep
      cases afterStep
      exact Nat.le_succ_of_le earlier

omit [Calculus V] in
theorem advance_withoutReset (reset : plan.resetAfter = some R) (early : s.accelerated + 1 < R)
    (next previous : V) :
    s.advance plan.withoutReset w next previous = s.advance plan w next previous := by
  have held : plan.resetAfter.any (fun r => decide (r ≤ s.accelerated + 1)) = false := by
    simp [reset, early]
  rw [State.advance, State.advance, held]
  rfl

theorem iteration_withoutReset (reset : plan.resetAfter = some R)
    (early : s.accelerated + 1 < R) :
    iteration objective plan.withoutReset w n s = iteration objective plan w n s := by
  have moves : accelerate plan.withoutReset w n s = accelerate plan w n s := by
    simp only [accelerate, advance_withoutReset reset early]
  unfold iteration
  rw [moves]
  rfl

theorem outcome_afterIterations_withoutReset (reset : plan.resetAfter = some R)
    (fresh : first.accelerated = 0) (early : n < R) :
    (afterIterations objective plan.withoutReset w first n).outcome prepared =
      (afterIterations objective plan w first n).outcome prepared := by
  induction n with
  | zero => rfl
  | succ n ih =>
    rw [afterIterations, afterIterations, Action.outcome_bind, Action.outcome_bind,
      ih (Nat.lt_of_succ_lt early)]
    cases before : (afterIterations objective plan w first n).outcome prepared with
    | mk result m =>
      cases result with
      | error fault => rfl
      | ok s =>
        have few := accelerated_le_of_afterIterations fresh before
        simp only [iteration_withoutReset reset (Nat.lt_of_le_of_lt (Nat.succ_le_succ few) early)]

/-- What an iteration does to the memory does not depend on the reset. -/
theorem iteration_withoutReset_forget (x : Cell) :
    (iteration objective plan.withoutReset w n s >>= fun _ => pure x) =
      (iteration objective plan w n s >>= fun _ => pure x) := by
  have moves : (accelerate plan.withoutReset w n s >>= fun _ => pure x) =
      (accelerate plan w n s >>= fun _ => pure x) := by
    simp only [accelerate, bind_assoc, pure_bind]
  have same : plan.withoutReset.accelerated = plan.accelerated := rfl
  simp only [iteration, bind_assoc, same]
  cases plan.accelerated with
  | false => rfl
  | true =>
    simp only [if_true, moves]
    rfl

theorem outcome_iterations_withoutReset (reset : plan.resetAfter = some R)
    (fresh : first.accelerated = 0) (late : n ≤ R) (x : Cell) :
    (afterIterations objective plan.withoutReset w first n >>= fun _ => pure x).outcome prepared =
      (afterIterations objective plan w first n >>= fun _ => pure x).outcome prepared := by
  cases n with
  | zero => rfl
  | succ n =>
    -- What the last iteration hands on may differ, but nothing reads it.
    simp only [afterIterations, bind_assoc, iteration_withoutReset_forget]
    rw [Action.outcome_bind, Action.outcome_bind,
      outcome_afterIterations_withoutReset reset fresh late]

/-- A run whose momentum would be reset in the last iteration at the earliest is the run without a
reset. -/
theorem outcome_minimize_withoutReset {objective : Action V (Objective V)} {N : Nat}
    (limited : plan.iterations = some N) (reset : plan.resetAfter = some R) (late : N ≤ R) :
    (minimize objective plan.withoutReset x).outcome begun =
      (minimize objective plan x).outcome begun := by
  have opening : setUp plan.withoutReset x = setUp plan x := rfl
  rw [minimize, minimize, opening, Action.outcome_bind, Action.outcome_bind]
  cases opens : (setUp plan x).outcome begun with
  | mk result prepared =>
  cases result with
  | error fault => rfl
  | ok parts =>
  obtain ⟨iterations, w, first⟩ := parts
  obtain rfl : N = iterations :=
    Option.some.inj (limited.symm.trans (opened_of_setUp opens).iterations)
  change (objective >>= _).outcome prepared = (objective >>= _).outcome prepared
  rw [Action.outcome_bind, Action.outcome_bind]
  cases objective.outcome prepared with
  | mk result m =>
  cases result with
  | error fault => rfl
  | ok terms => exact outcome_iterations_withoutReset reset (accelerated_of_setUp opens) late x

end Fista

end ProxGrad
