import ProxGrad.Proofs.Action
import ProxGrad.Solver.Fista

/-!
# Runs

A run is its set-up followed by its iterations one after another. `Reached` names the state and the
memory at which it stands after some of them.
-/

set_option autoImplicit false

namespace ProxGrad

/-- The number of arrays that a run allocates for itself. -/
def Plan.arrays {V : Type} (plan : Plan V) : Nat :=
  if plan.accelerated then 2 else 1

namespace Fista

/-- A list whose first entries are done, with the next one set. -/
theorem set_next {α : Type} {done old : List α} (room : done.length < old.length) (e : α) :
    (done ++ old.drop done.length).set done.length e =
      (done ++ [e]) ++ old.drop (done.length + 1) := by
  rw [List.set_append_right _ _ (Nat.le_refl _), Nat.sub_self, List.append_assoc]
  obtain ⟨first, rest, split⟩ : ∃ first rest, old.drop done.length = first :: rest :=
    ⟨_, _, List.drop_eq_getElem_cons room⟩
  have tail : old.drop (done.length + 1) = rest := by
    rw [← List.tail_drop, split, List.tail_cons]
  rw [split, tail, List.set_cons_zero, List.singleton_append]

variable {V : Type}

def historyCells (plan : Plan V) : Set Cell :=
  {h | plan.history = some h}

theorem outcome_announce (plan : Plan V) (n : Nat) (value : V) (m : Memory V) :
    ∃ reports, (announce plan n value).outcome m = (.ok (), { m with reports }) ∧
      reports.toList = m.reports.toList ++ if plan.verbose then [(n, value)] else [] := by
  cases verbose : plan.verbose with
  | true => exact ⟨_, by rw [announce, if_pos verbose, Action.outcome_report], by simp⟩
  | false => exact ⟨m.reports, by simp [announce, verbose], by simp⟩

/-- What the set-up of a run leaves: new arrays, and everything else as it was. -/
structure Opened (plan : Plan V) (x : Cell) (begun : Memory V) (iterations : Nat) (w : Workspace V)
    (prepared : Memory V) : Prop where
  iterations : plan.iterations = some iterations
  iterate : w.iterate = x
  existing : x.index < begun.cells.size
  proximal : w.proximal = x ∨
    begun.cells.size ≤ w.proximal.index ∧ w.proximal.index < prepared.cells.size
  gradient : begun.cells.size ≤ w.gradient.index ∧ w.gradient.index < prepared.cells.size
  content : ∀ c, c.index < begun.cells.size → prepared.content c = begun.content c
  size : prepared.cells.size = begun.cells.size + plan.arrays
  calls : prepared.calls = begun.calls
  reports : prepared.reports = begun.reports

theorem Opened.larger {plan : Plan V} {x : Cell} {begun prepared : Memory V} {iterations : Nat}
    {w : Workspace V} (opened : Opened plan x begun iterations w prepared) :
    begun.cells.size ≤ prepared.cells.size :=
  opened.size ▸ Nat.le_add_right _ _

variable [Calculus V]

/-- Remembering a value stores it into the history, if the history takes it. -/
theorem outcome_remember_of_history {plan : Plan V} {h : Cell} (chosen : plan.history = some h)
    {m : Memory V} {values : V} (held : m.content h = some values) (n : Nat) (value : V) :
    (remember plan (n + 1) value).outcome m =
      match Calculus.setEntry values n value with
      | .ok values => (.ok (), m.put h values)
      | .error fault => (.error fault, m) := by
  simp only [remember, chosen, Nat.add_sub_cancel]
  rw [Action.outcome_bind_of_ok (Action.outcome_read held), Action.outcome_bind,
    Action.outcome_lift]
  cases Calculus.setEntry values n value <;> rfl

theorem outcome_remember_of_no_history {plan : Plan V} (unkept : plan.history = none)
    (n : Nat) (value : V) (m : Memory V) :
    (remember plan n value).outcome m = (.ok (), m) := by
  simp [remember, unkept]

/-- The run of a plan on a cell, begun on one memory, stands after `n` of its iterations at a state
and another memory. -/
def Reached (objective : Objective V) (plan : Plan V) (x : Cell) (begun : Memory V) (n : Nat)
    (w : Workspace V) (s : State V) (m : Memory V) : Prop :=
  ∃ iterations first prepared,
    (setUp plan x).outcome begun = (.ok (iterations, w, first), prepared) ∧ n ≤ iterations ∧
      (afterIterations objective plan w first n).outcome prepared = (.ok s, m)

variable {objective : Objective V} {plan : Plan V} {x : Cell}

theorem outcome_setUp {begun prepared : Memory V} {start lipschitz : V} {iterations : Nat}
    {w : Workspace V} {first : State V} (held : begun.content x = some start)
    (accepted : accept plan start = .ok (iterations, lipschitz))
    (prepares : (prepare plan x lipschitz).outcome begun = (.ok (w, first), prepared)) :
    (setUp plan x).outcome begun = (.ok (iterations, w, first), prepared) := by
  rw [setUp, Action.outcome_bind_of_ok (Action.outcome_read held), accepted,
    Action.outcome_bind_of_ok (Action.outcome_lift _ begun)]
  exact (Action.outcome_bind_of_ok prepares).trans (Action.outcome_pure _ _)

theorem accept_eq_ok_iff {start lipschitz : V} {iterations : Nat} :
    accept plan start = .ok (iterations, lipschitz) ↔
      plan.iterations = some iterations ∧ plan.lipschitz = some lipschitz ∧
        Calculus.requireFloating "x" start = .ok () := by
  unfold accept
  cases plan.iterations with
  | none => simp [throw, throwThe, MonadExceptOf.throw]
  | some count =>
      cases plan.lipschitz with
      | none => simp [throw, throwThe, MonadExceptOf.throw]
      | some constant =>
          cases Calculus.requireFloating "x" start <;>
            simp [bind, Except.bind, pure, Except.pure]

theorem accept_eq_ok {start lipschitz : V} {iterations : Nat}
    (accepted : accept plan start = .ok (iterations, lipschitz)) :
    plan.iterations = some iterations :=
  (accept_eq_ok_iff.mp accepted).1

theorem outcome_proximalArray_eq_ok {m m' : Memory V} {c : Cell}
    (ran : (proximalArray plan x).outcome m = (.ok c, m')) :
    plan.accelerated = false ∧ c = x ∧ m' = m ∨
      plan.accelerated = true ∧ c = m.next ∧ ∃ v, m' = m.push v := by
  cases mode : plan.accelerated with
  | false =>
      rw [proximalArray, mode] at ran
      cases ran
      exact .inl ⟨rfl, rfl, rfl⟩
  | true =>
      rw [proximalArray, mode] at ran
      exact .inr ⟨rfl, Action.outcome_freshLike_eq_ok ran⟩

theorem exists_of_setUp {begun prepared : Memory V} {iterations : Nat} {w : Workspace V}
    {first : State V}
    (ran : (setUp plan x).outcome begun = (.ok (iterations, w, first), prepared)) :
    ∃ start lipschitz, begun.content x = some start ∧
      accept plan start = .ok (iterations, lipschitz) ∧
      (prepare plan x lipschitz).outcome begun = (.ok (w, first), prepared) := by
  obtain ⟨start, _, seen, afterRead⟩ := Action.outcome_bind_eq_ok ran
  obtain ⟨held, rfl⟩ := Action.outcome_read_eq_ok seen
  obtain ⟨⟨_, lipschitz⟩, _, accepted, afterAccept⟩ := Action.outcome_bind_eq_ok afterRead
  obtain ⟨accepts, rfl⟩ := Action.outcome_lift_eq_ok accepted
  obtain ⟨_, _, prepares, finish⟩ := Action.outcome_bind_eq_ok afterAccept
  cases finish
  exact ⟨start, lipschitz, held, accepts, prepares⟩

/-- What a prepared run has: the caller's cell, the destination of proximal maps and a new array for
gradients, with no iteration accelerated so far. -/
theorem exists_of_prepare {begun prepared : Memory V} {lipschitz : V} {w : Workspace V}
    {first : State V}
    (prepares : (prepare plan x lipschitz).outcome begun = (.ok (w, first), prepared)) :
    ∃ between q, (proximalArray plan x).outcome begun = (.ok w.proximal, between) ∧
      prepared = between.push q ∧ w.gradient = between.next ∧ w.iterate = x ∧
      first.accelerated = 0 := by
  obtain ⟨_, _, seen, afterRead⟩ := Action.outcome_bind_eq_ok prepares
  obtain ⟨_, rfl⟩ := Action.outcome_read_eq_ok seen
  obtain ⟨_, between, chosen, afterProximal⟩ := Action.outcome_bind_eq_ok afterRead
  obtain ⟨_, _, allocated, afterGradient⟩ := Action.outcome_bind_eq_ok afterProximal
  obtain ⟨rfl, q, rfl⟩ := Action.outcome_freshLike_eq_ok allocated
  obtain ⟨_, _, rounded, afterLipschitz⟩ := Action.outcome_bind_eq_ok afterGradient
  obtain ⟨_, rfl⟩ := Action.outcome_lift_eq_ok rounded
  obtain ⟨_, _, one, afterOne⟩ := Action.outcome_bind_eq_ok afterLipschitz
  obtain ⟨_, rfl⟩ := Action.outcome_lift_eq_ok one
  cases afterOne
  exact ⟨between, q, chosen, rfl, rfl, rfl, rfl⟩

theorem opened_of_setUp {begun prepared : Memory V} {iterations : Nat} {w : Workspace V}
    {first : State V}
    (ran : (setUp plan x).outcome begun = (.ok (iterations, w, first), prepared)) :
    Opened plan x begun iterations w prepared := by
  obtain ⟨start, lipschitz, held, accepts, prepares⟩ := exists_of_setUp ran
  obtain ⟨between, q, chosen, rfl, gradient, iterate, -⟩ := exists_of_prepare prepares
  have existing := Memory.index_lt_of_content held
  rcases outcome_proximalArray_eq_ok chosen with ⟨mode, same, rfl⟩ | ⟨mode, new, p, rfl⟩
  · exact {
      iterations := accept_eq_ok accepts
      iterate := iterate
      existing := existing
      proximal := .inl same
      gradient := by
        rw [gradient]
        exact ⟨Nat.le_refl _, by simp [Memory.next]⟩
      content := fun c bound => Memory.content_push_of_lt bound q
      size := by simp [Plan.arrays, mode]
      calls := rfl
      reports := rfl }
  · exact {
      iterations := accept_eq_ok accepts
      iterate := iterate
      existing := existing
      proximal := by
        rw [new]
        exact .inr ⟨Nat.le_refl _, Memory.lt_size_push (by simp [Memory.next]) q⟩
      gradient := by
        rw [gradient]
        exact ⟨by simp [Memory.next], by simp [Memory.next]⟩
      content := by
        intro c bound
        rw [Memory.content_push_of_lt (Memory.lt_size_push bound p) q,
          Memory.content_push_of_lt bound p]
      size := by simp [Plan.arrays, mode, Nat.add_assoc]
      calls := rfl
      reports := rfl }

theorem outcome_afterIterations_succ {w : Workspace V} {first s : State V} {n : Nat}
    {prepared m : Memory V}
    (reached : (afterIterations objective plan w first n).outcome prepared = (.ok s, m)) :
    (afterIterations objective plan w first (n + 1)).outcome prepared =
      (iteration objective plan w (n + 1) s).outcome m :=
  Action.outcome_bind_of_ok reached

/-- A run gives its cell back if all its iterations succeed, and fails as they do. -/
theorem outcome_minimize {w : Workspace V} {first : State V} {iterations : Nat}
    {begun prepared m : Memory V} {result : Except Fault (State V)}
    (opened : (setUp plan x).outcome begun = (.ok (iterations, w, first), prepared))
    (finished :
      (afterIterations objective plan w first iterations).outcome prepared = (result, m)) :
    (minimize (pure objective) plan x).outcome begun = (result.map fun _ => x, m) := by
  rw [minimize, Action.outcome_bind_of_ok opened,
    Action.outcome_bind_of_ok (Action.outcome_pure objective prepared)]
  cases result with
  | ok s => rw [Action.outcome_bind_of_ok finished, Action.outcome_pure, Except.map]
  | error fault => rw [Action.outcome_bind_of_error finished, Except.map]

theorem outcome_minimize_of_refused {begun m : Memory V} {fault : Fault}
    (refused : (setUp plan x).outcome begun = (.error fault, m)) :
    (minimize (pure objective) plan x).outcome begun = (.error fault, m) :=
  Action.outcome_bind_of_error refused

end Fista

end ProxGrad
