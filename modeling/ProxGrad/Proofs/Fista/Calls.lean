import ProxGrad.Proofs.Fista.Observation
import ProxGrad.Proofs.Footprint

/-!
# Calls of a run to its terms

A run calls its two terms in turn. A term is a stranger to the solver: it may fail at any point and
keep what it wrote, but it writes to the destination that it is given and to cells of its own only.
What the solver's own cells hold between two calls follows from this, whatever the terms compute.
-/

set_option autoImplicit false

namespace ProxGrad

variable {V : Type}

/-- An objective whose terms write to their destinations and to cells of their own only. -/
structure Objective.Contained (objective : Objective V) (own : Set Cell) : Prop where
  gradient (x out : Cell) : (objective.smooth.gradient (.cell x) out).Within (insert out own)
  valueAndGradient (x out : Cell) :
    (objective.smooth.valueAndGradient (.cell x) out).Within (insert out own)
  prox (y step : V) (out : Cell) :
    (objective.proximal.prox (.const y) step out).Within (insert out own)

/-- An objective whose terms record each of their calls once. One that fails may go unrecorded. -/
structure Objective.Announced (objective : Objective V) : Prop where
  gradient (x out : Cell) : (objective.smooth.gradient (.cell x) out).Announces [.evaluation]
  valueAndGradient (x out : Cell) :
    (objective.smooth.valueAndGradient (.cell x) out).Announces [.evaluation]
  prox (y step : V) (out : Cell) : (objective.proximal.prox (.const y) step out).Announces [.prox]

namespace Fista

/-- The terms know nothing of the array that is minimized nor of the history, which is an array
besides. -/
structure Separate (own : Set Cell) (plan : Plan V) (x : Cell) (begun : Memory V) : Prop where
  iterate_foreign : x ∉ own
  history_ne : ∀ h, plan.history = some h → h ≠ x
  history_foreign : ∀ h, plan.history = some h → h ∉ own
  history_existing : ∀ h, plan.history = some h → h.index < begun.cells.size

/-! ## The parts of an iteration -/

/-- Asks the smooth term for the gradient at the iterate, and for the value if the run is
observed. -/
def askSmooth (objective : Objective V) (plan : Plan V) (w : Workspace V) : Action V (Option V) :=
  if plan.observed then do
    return some (← objective.smooth.valueAndGradient (.cell w.iterate) w.gradient)
  else do
    objective.smooth.gradient (.cell w.iterate) w.gradient
    return none

variable {objective : Objective V} {own : Set Cell} {plan : Plan V} {w : Workspace V}

theorem askSmooth_within (contained : objective.Contained own) (plan : Plan V) (w : Workspace V) :
    (askSmooth objective plan w).Within (insert w.gradient own) := by
  unfold askSmooth
  split
  · exact .bind (contained.valueAndGradient _ _) fun _ => .of_still (Action.still_pure _)
  · exact .bind (contained.gradient _ _) fun _ => .of_still (Action.still_pure _)

theorem askSmooth_announces (announced : objective.Announced) (plan : Plan V) (w : Workspace V) :
    (askSmooth objective plan w).Announces [.evaluation] := by
  unfold askSmooth
  split
  · exact .bind_quiet (announced.valueAndGradient _ _) fun _ => .of_still (Action.still_pure _)
  · exact .bind_quiet (announced.gradient _ _) fun _ => .of_still (Action.still_pure _)

/-- A run that is observed asks for values. -/
theorem exists_answer_of_observed (asks : plan.observed = true) {answer : Option V}
    {m m' : Memory V}
    (asked : (askSmooth objective plan w).outcome m = (.ok answer, m')) :
    ∃ value, answer = some value := by
  rw [askSmooth, if_pos asks] at asked
  obtain ⟨value, _, _, finish⟩ := Action.outcome_bind_eq_ok asked
  cases finish
  exact ⟨value, rfl⟩

/-- A cell that is none of a run's arrays and none that its terms write to. -/
structure Beside (own : Set Cell) (w : Workspace V) (c : Cell) : Prop where
  foreign : c ∉ own
  ne_iterate : c ≠ w.iterate
  ne_proximal : c ≠ w.proximal
  ne_gradient : c ≠ w.gradient

theorem Beside.not_mem_asked {c : Cell} (beside : Beside own w c) : c ∉ insert w.gradient own := by
  simp [beside.foreign, beside.ne_gradient]

theorem Beside.not_mem_moved {c : Cell} (beside : Beside own w c) :
    c ∉ insert w.iterate (insert w.proximal own) := by
  simp [beside.foreign, beside.ne_iterate, beside.ne_proximal]

variable {x : Cell} {begun prepared : Memory V} {count : Nat}

theorem Separate.beside (separate : Separate own plan x begun)
    (opened : Opened plan x begun count w prepared) {h : Cell} (chosen : plan.history = some h) :
    Beside own w h := by
  have existing := separate.history_existing h chosen
  have old {c : Cell} (new : begun.cells.size ≤ c.index) : h ≠ c := by
    rintro rfl
    exact Nat.lt_irrefl _ (Nat.lt_of_lt_of_le existing new)
  exact {
    foreign := separate.history_foreign h chosen
    ne_iterate := opened.iterate ▸ separate.history_ne h chosen
    ne_proximal := by
      rcases opened.proximal with same | new
      · exact same ▸ separate.history_ne h chosen
      · exact old new.1
    ne_gradient := old opened.gradient.1 }

theorem Opened.iterate_ne_gradient (opened : Opened plan x begun count w prepared) :
    x ≠ w.gradient := by
  rintro same
  have new := opened.gradient.1
  rw [← same] at new
  exact Nat.lt_irrefl _ (Nat.lt_of_lt_of_le opened.existing new)

/-- An evaluation leaves the iterate as it was, whether it succeeds or not. -/
theorem content_of_askSmooth (contained : objective.Contained own)
    (separate : Separate own plan x begun) (opened : Opened plan x begun count w prepared)
    {m m' : Memory V} {answer : Except Fault (Option V)}
    (asked : (askSmooth objective plan w).outcome m = (answer, m'))
    (existing : x.index < m.cells.size) : m'.content x = m.content x := by
  obtain ⟨v, held⟩ := Memory.exists_content existing
  rw [held]
  refine (askSmooth_within contained plan w).content asked ?_ held
  simp [separate.iterate_foreign, opened.iterate_ne_gradient]

variable [Calculus V]

def noteAnswer (plan : Plan V) (n : Nat) : Option V → Action V Unit
  | some value => noteValue plan n value
  | none => pure ()

theorem evaluate_eq (objective : Objective V) (plan : Plan V) (w : Workspace V) (n : Nat) :
    evaluate objective plan w (n + 1) = askSmooth objective plan w >>= noteAnswer plan n := by
  cases asks : plan.observed with
  | true => simp [evaluate_of_observed asks, askSmooth, asks, noteAnswer]
  | false => simp [evaluate_of_not_observed asks, askSmooth, asks, noteAnswer]

/-- The point and the step that the proximal map is asked for. -/
def forward (w : Workspace V) : Action V (V × V) := do
  let x ← Action.read w.iterate
  let g ← Action.read w.gradient
  let y ← Action.lift (do Calculus.sub x (← Calculus.div g w.lipschitz))
  return (y, ← Action.lift (Calculus.div (Calculus.ofNat 1) w.lipschitz))

theorem proximalStep_eq (objective : Objective V) (w : Workspace V) :
    proximalStep objective w =
      forward w >>= fun (y, step) => objective.proximal.prox (.const y) step w.proximal := by
  simp [proximalStep, forward]

theorem still_forward (w : Workspace V) : (forward w).Still :=
  .bind (Action.still_read _) fun _ => .bind (Action.still_read _) fun _ =>
    .bind (Action.still_lift _) fun _ => .bind (Action.still_lift _) fun _ => fun _ => rfl

theorem proximalStep_within (contained : objective.Contained own) (w : Workspace V) :
    (proximalStep objective w).Within (insert w.proximal own) := by
  rw [proximalStep_eq]
  exact .bind (.of_still (still_forward w)) fun _ => contained.prox _ _ _

theorem accelerate_within (plan : Plan V) (w : Workspace V) (n : Nat) (s : State V) :
    (accelerate plan w n s).Within {w.iterate} :=
  .bind (.of_still (Action.still_lift _)) fun _ => .bind (.of_still (Action.still_read _)) fun _ =>
    .bind (.of_still (Action.still_lift _)) fun _ => .bind (.store (Set.mem_singleton _) _) fun _ =>
      .bind (.of_still (Action.still_lift _)) fun _ => .of_still (Action.still_pure _)

theorem accelerate_silent (plan : Plan V) (w : Workspace V) (n : Nat) (s : State V) :
    (accelerate plan w n s).Silent :=
  .bind (.of_still (Action.still_lift _)) fun _ => .bind (.of_still (Action.still_read _)) fun _ =>
    .bind (.of_still (Action.still_lift _)) fun _ => .bind (.store _ _) fun _ =>
      .bind (.of_still (Action.still_lift _)) fun _ => .of_still (Action.still_pure _)

theorem moveOn_within (contained : objective.Contained own) (plan : Plan V) (w : Workspace V)
    (n : Nat) (s : State V) :
    (moveOn objective plan w n s).Within (insert w.iterate (insert w.proximal own)) := by
  refine .bind ((proximalStep_within contained w).mono (Set.subset_insert _ _)) fun _ => ?_
  split
  · exact (accelerate_within plan w n s).mono (by simp)
  · exact .of_still (Action.still_pure _)

theorem moveOn_announces (announced : objective.Announced) (plan : Plan V) (w : Workspace V)
    (n : Nat) (s : State V) : (moveOn objective plan w n s).Announces [.prox] := by
  refine .bind_quiet ?_ fun _ => ?_
  · rw [proximalStep_eq]
    exact .bind (.of_still (still_forward w)) fun _ => announced.prox _ _ _
  · split
    · exact .of_silent (accelerate_silent plan w n s)
    · exact .of_still (Action.still_pure _)

theorem exists_parts_of_iteration {n : Nat} {s s' : State V} {m m' : Memory V}
    (ran : (iteration objective plan w (n + 1) s).outcome m = (.ok s', m')) :
    ∃ answer m₁ m₂, (askSmooth objective plan w).outcome m = (.ok answer, m₁) ∧
      (noteAnswer plan n answer).outcome m₁ = (.ok (), m₂) ∧
      (moveOn objective plan w (n + 1) s).outcome m₂ = (.ok s', m') := by
  rw [iteration_eq, evaluate_eq] at ran
  obtain ⟨_, m₂, evaluated, moved⟩ := Action.outcome_bind_eq_ok ran
  obtain ⟨answer, m₁, asked, noted⟩ := Action.outcome_bind_eq_ok evaluated
  exact ⟨answer, m₁, m₂, asked, noted, moved⟩

theorem remember_silent (plan : Plan V) (n : Nat) (value : V) :
    (remember plan n value).Silent := by
  unfold remember
  split
  · exact .bind (.of_still (Action.still_read _)) fun _ =>
      .bind (.of_still (Action.still_lift _)) fun _ => .write _ _
  · exact .of_still (Action.still_pure _)

theorem noteAnswer_silent (plan : Plan V) (n : Nat) (answer : Option V) :
    (noteAnswer plan n answer).Silent := by
  cases answer with
  | none => exact .of_still (Action.still_pure _)
  | some value =>
    refine .bind (remember_silent plan (n + 1) value) fun _ => ?_
    unfold announce
    split
    · exact fun _ => rfl
    · exact .of_still (Action.still_pure _)

theorem remember_within (plan : Plan V) (n : Nat) (value : V) :
    (remember plan n value).Within (historyCells plan) := by
  unfold remember
  split
  case h_1 h chosen =>
    exact .bind (.of_still (Action.still_read _)) fun _ =>
      .bind (.of_still (Action.still_lift _)) fun _ => .write chosen _
  case h_2 => exact .of_still (Action.still_pure _)

theorem noteAnswer_within (plan : Plan V) (n : Nat) (answer : Option V) :
    (noteAnswer plan n answer).Within (historyCells plan) := by
  cases answer with
  | none => exact .of_still (Action.still_pure _)
  | some value =>
    refine .bind (remember_within plan (n + 1) value) fun _ => ?_
    unfold announce
    split
    · exact fun m => ⟨.refl _ m, Nat.le_refl _⟩
    · exact .of_still (Action.still_pure _)

theorem evaluate_within (contained : objective.Contained own) (plan : Plan V) (w : Workspace V)
    (n : Nat) :
    (evaluate objective plan w (n + 1)).Within (insert w.gradient own ∪ historyCells plan) := by
  rw [evaluate_eq]
  exact .bind ((askSmooth_within contained plan w).mono Set.subset_union_left) fun answer =>
    (noteAnswer_within plan n answer).mono Set.subset_union_right

/-- An evaluation leaves the iterate as it was, also where its value is noted. -/
theorem content_of_evaluate (contained : objective.Contained own)
    (separate : Separate own plan x begun) (opened : Opened plan x begun count w prepared)
    {n : Nat} {m m' : Memory V} {result : Except Fault Unit}
    (evaluated : (evaluate objective plan w (n + 1)).outcome m = (result, m'))
    (existing : x.index < m.cells.size) : m'.content x = m.content x := by
  obtain ⟨v, held⟩ := Memory.exists_content existing
  rw [held]
  refine (evaluate_within contained plan w n).content evaluated ?_ held
  have apart : x ∉ historyCells plan := fun chosen => separate.history_ne x chosen rfl
  simp [separate.iterate_foreign, opened.iterate_ne_gradient, apart]

/-! ## Runs -/

/-- The value that the smooth term gives in iteration `n + 1`, if it is asked for one and gives
it. -/
def answer? (objective : Objective V) (plan : Plan V) (w : Workspace V) (first : State V)
    (prepared : Memory V) (n : Nat) : Option V :=
  match (afterIterations objective plan w first n).outcome prepared with
  | (.ok _, m) =>
    match (askSmooth objective plan w).outcome m with
    | (.ok answer, _) => answer
    | (.error _, _) => none
  | (.error _, _) => none

def answers (objective : Objective V) (plan : Plan V) (w : Workspace V) (first : State V)
    (prepared : Memory V) (n : Nat) : List V :=
  (List.range n).filterMap (answer? objective plan w first prepared)

/-- The calls of `n` complete iterations. -/
def rounds : Nat → List Turn
  | 0 => []
  | n + 1 => rounds n ++ [.evaluation, .prox]

theorem count_prox_rounds (n : Nat) : (rounds n).count .prox = n := by
  induction n with
  | zero => rfl
  | succ n ih => simp [rounds, ih]

variable {first s : State V} {m : Memory V} {n : Nat}

theorem exists_of_afterIterations_succ {s' : State V} {m' : Memory V}
    (ran : (afterIterations objective plan w first (n + 1)).outcome prepared = (.ok s', m')) :
    ∃ s m, (afterIterations objective plan w first n).outcome prepared = (.ok s, m) ∧
      (iteration objective plan w (n + 1) s).outcome m = (.ok s', m') :=
  Action.outcome_bind_eq_ok ran

theorem size_le_of_afterIterations (contained : objective.Contained own)
    (ran : (afterIterations objective plan w first n).outcome prepared = (.ok s, m)) :
    prepared.cells.size ≤ m.cells.size := by
  induction n generalizing s m with
  | zero =>
    cases ran
    exact Nat.le_refl _
  | succ n ih =>
    obtain ⟨s₀, m₀, before, last⟩ := exists_of_afterIterations_succ ran
    obtain ⟨answer, m₁, m₂, asked, noted, moved⟩ := exists_parts_of_iteration last
    calc prepared.cells.size
      _ ≤ m₀.cells.size := ih before
      _ ≤ m₁.cells.size := (askSmooth_within contained plan w).size_le asked
      _ ≤ m₂.cells.size := (noteAnswer_within plan n answer).size_le noted
      _ ≤ m.cells.size := (moveOn_within contained plan w (n + 1) s₀).size_le moved

theorem turns_of_afterIterations (announced : objective.Announced)
    (ran : (afterIterations objective plan w first n).outcome prepared = (.ok s, m)) :
    m.turns = prepared.turns ++ rounds n := by
  induction n generalizing s m with
  | zero =>
    cases ran
    exact (List.append_nil _).symm
  | succ n ih =>
    obtain ⟨s₀, m₀, before, last⟩ := exists_of_afterIterations_succ ran
    obtain ⟨answer, m₁, m₂, asked, noted, moved⟩ := exists_parts_of_iteration last
    have same := (Action.Announces.of_silent (noteAnswer_silent plan n answer)).of_ok noted
    rw [(moveOn_announces announced plan w (n + 1) s₀).of_ok moved, same,
      (askSmooth_announces announced plan w).of_ok asked, ih before, rounds]
    simp

theorem answer?_of_asked {answer : Option V} {m' : Memory V}
    (ran : (afterIterations objective plan w first n).outcome prepared = (.ok s, m))
    (asked : (askSmooth objective plan w).outcome m = (.ok answer, m')) :
    answer? objective plan w first prepared n = answer := by
  simp only [answer?, ran, asked]

theorem answers_succ (objective : Objective V) (plan : Plan V) (w : Workspace V) (first : State V)
    (prepared : Memory V) (n : Nat) :
    answers objective plan w first prepared (n + 1) =
      answers objective plan w first prepared n ++
        (answer? objective plan w first prepared n).toList := by
  rw [answers, List.range_succ, List.filterMap_append, answers]
  cases found : answer? objective plan w first prepared n <;> simp [found]

theorem length_answers (asks : plan.observed = true)
    (ran : (afterIterations objective plan w first n).outcome prepared = (.ok s, m)) :
    (answers objective plan w first prepared n).length = n := by
  induction n generalizing s m with
  | zero => rfl
  | succ n ih =>
    obtain ⟨s₀, m₀, before, last⟩ := exists_of_afterIterations_succ ran
    obtain ⟨answer, m₁, m₂, asked, _, _⟩ := exists_parts_of_iteration last
    obtain ⟨value, rfl⟩ := exists_answer_of_observed asks asked
    rw [answers_succ, answer?_of_asked before asked, List.length_append, ih before]
    rfl

/-- A history that noting a value leaves has that value as its next entry. -/
theorem content_of_noteValue {h : Cell} (chosen : plan.history = some h) {values : V}
    {m' : Memory V} (held : m.content h = some values) {value : V}
    (noted : (noteValue plan n value).outcome m = (.ok (), m')) :
    ∃ new, m'.content h = some new ∧ Calculus.setEntry values n value = .ok new := by
  obtain ⟨_, m₁, remembered, announced⟩ := Action.outcome_bind_eq_ok noted
  rw [outcome_remember_of_history chosen held] at remembered
  cases stored : Calculus.setEntry values n value with
  | error fault =>
    rw [stored] at remembered
    cases remembered
  | ok new =>
    rw [stored] at remembered
    cases remembered
    obtain ⟨reports, same, -⟩ := outcome_announce plan (n + 1) value (m.put h new)
    cases same.symm.trans announced
    exact ⟨new, Memory.content_put_self held new, rfl⟩

/-- The history holds the values that the smooth term gave, after what it held before. -/
theorem history_of_afterIterations (contained : objective.Contained own) {h : Cell}
    (chosen : plan.history = some h) (beside : Beside own w h) {old : V}
    (held : prepared.content h = some old)
    (ran : (afterIterations objective plan w first n).outcome prepared = (.ok s, m)) :
    ∃ new, m.content h = some new ∧
      entered old (answers objective plan w first prepared n) = .ok new := by
  have asks : plan.observed = true := by simp [Plan.observed, chosen]
  induction n generalizing s m with
  | zero =>
    cases ran
    exact ⟨old, held, rfl⟩
  | succ n ih =>
    obtain ⟨s₀, m₀, before, last⟩ := exists_of_afterIterations_succ ran
    obtain ⟨answer, m₁, m₂, asked, noted, moved⟩ := exists_parts_of_iteration last
    obtain ⟨value, rfl⟩ := exists_answer_of_observed asks asked
    obtain ⟨earlier, held₀, stored⟩ := ih before
    have held₁ := (askSmooth_within contained plan w).content asked beside.not_mem_asked held₀
    obtain ⟨new, held₂, next⟩ := content_of_noteValue chosen held₁ noted
    refine ⟨new, ?_, ?_⟩
    · exact (moveOn_within contained plan w (n + 1) s₀).content moved beside.not_mem_moved held₂
    · rw [answers_succ, answer?_of_asked before asked, Option.toList_some, entered_concat stored,
        length_answers asks before, next]

end Fista

end ProxGrad
