import ProxGrad.Proofs.Fista.Observation

/-!
# Instruments do not interfere

A verbose run, or one with a history, and the run without instruments stay alike: after every number
of iterations they have the same result, and they differ in the observer's buffer only. The one
thing that could come between them is a history that does not take a value.
-/

set_option autoImplicit false

namespace ProxGrad

namespace Fista

variable {V : Type} {own : Likeness V} {plan : Plan V} {w : Workspace V} {buffer x : Cell} {old : V}
  {begun prepared : Memory V} {iterations : Nat}

/-- A buffer that is an array of its own: neither the array that is minimized nor one of the terms.
Those have what they keep, and allocate theirs once a run has its own. -/
structure Watched (own : Likeness V) (plan : Plan V) (buffer x : Cell) (old : V)
    (begun : Memory V) : Prop where
  held : begun.content buffer = some old
  apart : x ≠ buffer
  foreign : x ∉ own.kept
  buffer_foreign : buffer ∉ own.kept
  existing : ∀ c ∈ own.kept, c.index < begun.cells.size
  scratch : own.scratch = begun.cells.size + plan.arrays
  alike : own.alike begun begun

/-- A cell that existed before, or that the run allocated, is no scratch of the terms. -/
theorem Watched.not_mem_cells (watched : Watched own plan buffer x old begun) {c : Cell}
    (foreign : c ∉ own.kept) (bound : c.index < begun.cells.size + plan.arrays) :
    c ∉ own.cells := by
  rintro (inside | beyond)
  · exact foreign inside
  · rw [watched.scratch] at beyond
    exact Nat.lt_irrefl _ (Nat.lt_of_lt_of_le bound beyond)

theorem Watched.iterate_foreign (watched : Watched own plan buffer x old begun)
    (opened : Opened plan x begun iterations w prepared) : x ∉ own.cells :=
  watched.not_mem_cells watched.foreign (Nat.lt_add_right _ opened.existing)

theorem Watched.visible (watched : Watched own plan buffer x old begun)
    (opened : Opened plan x begun iterations w prepared) : Visible own buffer w := by
  have bound := Memory.index_lt_of_content watched.held
  have fresh (c : Cell) (new : begun.cells.size ≤ c.index ∧ c.index < prepared.cells.size) :
      c ∉ own.cells ∧ c ≠ buffer := by
    refine ⟨watched.not_mem_cells (fun inside => ?_) (opened.size ▸ new.2), fun same => ?_⟩
    · exact Nat.lt_irrefl _ (Nat.lt_of_lt_of_le (watched.existing c inside) new.1)
    · exact Nat.lt_irrefl _ (Nat.lt_of_lt_of_le (same ▸ bound) new.1)
  have iterate := watched.iterate_foreign opened
  have proximal : w.proximal ∉ own.cells ∧ w.proximal ≠ buffer := by
    rcases opened.proximal with same | new
    · rw [same]
      exact ⟨iterate, watched.apart⟩
    · exact fresh _ new
  exact {
    iterate_ne_gradient := by
      intro same
      have new := opened.gradient.1
      rw [← same, opened.iterate] at new
      exact Nat.lt_irrefl _ (Nat.lt_of_lt_of_le opened.existing new)
    iterate_foreign := opened.iterate ▸ iterate
    proximal_foreign := proximal.1
    gradient_foreign := (fresh _ opened.gradient).1
    buffer_foreign := watched.not_mem_cells watched.buffer_foreign (Nat.lt_add_right _ bound)
    iterate_ne_buffer := opened.iterate ▸ watched.apart
    proximal_ne_buffer := proximal.2
    gradient_ne_buffer := (fresh _ opened.gradient).2 }

theorem Watched.agree (watched : Watched own plan buffer x old begun)
    (opened : Opened plan x begun iterations w prepared) :
    prepared.Agree own buffer prepared := by
  have none_beyond {m : Memory V} {c : Cell} (beyond : m.cells.size ≤ c.index) :
      m.content c = none := Array.getElem?_eq_none beyond
  have same : ∀ c, c ∈ own.kept ∨ own.scratch ≤ c.index →
      prepared.content c = begun.content c := by
    rintro c (inside | beyond)
    · exact opened.content c (watched.existing c inside)
    · rw [watched.scratch] at beyond
      rw [none_beyond (opened.size.trans_le beyond),
        none_beyond ((Nat.le_add_right _ _).trans beyond)]
  refine .refl ?_ (own.alike_of_same same same watched.alike)
  rw [watched.scratch, opened.size]

variable [Calculus V]

theorem Watched.observed (watched : Watched own plan buffer x old begun)
    (opened : Opened plan x begun iterations w prepared) (plan' : Plan V) (f : V → V) :
    Observed plan' buffer f old begun [] [] prepared where
  evaluations := by
    rw [Memory.evaluations, opened.calls]
    simp [Memory.evaluations]
  reports := by
    rw [opened.reports]
    cases plan'.verbose <;> simp [numbered]
  content := by
    refine ⟨old, ?_, ?_⟩
    · rw [opened.content _ (Memory.index_lt_of_content watched.held), watched.held]
    · cases plan'.history <;> rfl

variable {objective : Objective V} {f : V → V} {m₁ m₂ : Memory V} {started computed : List V}

/-! ## Iterations -/

theorem agree_noteValue (agree : m₁.Agree own buffer m₂) (foreign : buffer ∉ own.cells)
    (chosen : ∀ h, plan.history = some h → h = buffer) (n : Nat) (value : V) {m' : Memory V}
    (ran : (noteValue plan n value).outcome m₂ = (.ok (), m')) : m₁.Agree own buffer m' := by
  obtain ⟨_, between, remembered, announced⟩ := Action.outcome_bind_eq_ok ran
  have kept : m₁.Agree own buffer between := by
    cases history : plan.history with
    | none =>
        rw [outcome_remember_of_no_history history] at remembered
        cases remembered
        exact agree
    | some h =>
        obtain rfl := chosen h history
        rw [remember, history] at remembered
        obtain ⟨values, _, seen, stored⟩ := Action.outcome_bind_eq_ok remembered
        obtain ⟨_, rfl⟩ := Action.outcome_read_eq_ok seen
        obtain ⟨values', _, entered, written⟩ := Action.outcome_bind_eq_ok stored
        obtain ⟨_, rfl⟩ := Action.outcome_lift_eq_ok entered
        cases written
        exact agree.put_hidden foreign values'
  obtain ⟨reports, same, _⟩ := outcome_announce plan (n + 1) value between
  cases same.symm.trans announced
  exact kept.reports reports

/-- An evaluation for a value, which the history takes, is alike to one without. -/
theorem evaluate_alike {silent : Plan V} (unasked : silent.observed = false)
    (asks : plan.observed = true) (observable : objective.Observable own buffer f)
    (visible : Visible own buffer w) (chosen : ∀ h, plan.history = some h → h = buffer)
    (agree : m₁.Agree own buffer m₂)
    (observed : Observed plan buffer f old begun started computed m₂) {p : V}
    (held : m₁.content w.iterate = some p)
    (takes : plan.history.isSome → ∀ m',
      (evaluate objective silent w (computed.length + 1)).outcome m₁ = (.ok (), m') →
      ∃ new, entered old ((computed ++ [p]).map f) = .ok new) :
    Alike own buffer (fun _ _ => True)
      ((evaluate objective silent w (computed.length + 1)).outcome m₁)
      ((evaluate objective plan w (computed.length + 1)).outcome m₂) := by
  have held₂ : m₂.content w.iterate = some p := by
    rw [← agree.content _ visible.iterate_foreign visible.iterate_ne_buffer, held]
  have alike := observable.smooth.alike agree visible.iterate_ne_gradient visible.iterate_foreign
    visible.iterate_ne_buffer visible.gradient_foreign visible.gradient_ne_buffer held
  have spared := observable.smooth.valueAndGradient visible.gradient_ne_buffer held₂
  have kind : plan.kind = .valueAndGradient := by simp [Plan.kind, asks]
  rw [evaluate_of_not_observed unasked] at takes ⊢
  rw [evaluate_of_observed asks]
  cases left : (objective.smooth.gradient (.cell w.iterate) w.gradient).outcome m₁ with
  | mk result₁ m₁' =>
      cases right : (objective.smooth.valueAndGradient (.cell w.iterate) w.gradient).outcome m₂ with
      | mk result₂ m₂' =>
          rw [left, right] at alike
          rw [right, ← kind] at spared
          obtain ⟨result, agree'⟩ := alike
          cases result with
          | error fault =>
              rw [Action.outcome_bind_of_error right]
              exact ⟨.error fault, agree'⟩
          | ok _ =>
              obtain rfl := observable.smooth.value agree visible.iterate_foreign held₂ right
              obtain ⟨m', noted, _, _⟩ :=
                (observed.spared [p] spared).noted chosen fun keeps => takes keeps m₁' left
              rw [Action.outcome_bind_of_ok right, noted]
              exact ⟨.ok trivial, agree_noteValue agree' visible.buffer_foreign chosen _ _ noted⟩

theorem moveOn_alike (observable : objective.Observable own buffer f)
    (visible : Visible own buffer w) (agree : m₁.Agree own buffer m₂) (plan : Plan V) (n : Nat)
    (s : State V) :
    Alike own buffer (fun a b => a = b) ((moveOn objective plan w n s).outcome m₁)
      ((moveOn objective plan w n s).outcome m₂) := by
  have steps : Alike own buffer (fun a b => a = b) ((proximalStep objective w).outcome m₁)
      ((proximalStep objective w).outcome m₂) := by
    refine .bind (.read agree visible.iterate_foreign visible.iterate_ne_buffer) ?_
    rintro x _ m₁ m₂ - - rfl agree
    refine .bind (.read agree visible.gradient_foreign visible.gradient_ne_buffer) ?_
    rintro g _ m₁ m₂ - - rfl agree
    refine .bind (.lift agree _) ?_
    rintro y _ m₁ m₂ - - rfl agree
    refine .bind (.lift agree _) ?_
    rintro step _ m₁ m₂ - - rfl agree
    exact observable.proximal.alike y step agree visible.proximal_foreign visible.proximal_ne_buffer
  refine .bind steps ?_
  rintro - - m₁ m₂ - - - agree
  cases plan.accelerated with
  | false => exact .pure agree s
  | true =>
      refine .bind (.lift agree _) ?_
      rintro next _ m₁ m₂ - - rfl agree
      refine .bind (.read agree visible.proximal_foreign visible.proximal_ne_buffer) ?_
      rintro z _ m₁ m₂ - - rfl agree
      refine .bind (.lift agree _) ?_
      rintro point _ m₁ m₂ - - rfl agree
      refine .bind (.store agree visible.iterate_foreign visible.iterate_ne_buffer point) ?_
      rintro - - m₁ m₂ - - - agree
      refine .bind (.lift agree _) ?_
      rintro - - m₁ m₂ - - - agree
      exact .pure agree _

variable {first : State V} {verbose : Bool} {history : Option Cell}

/-- After `n` iterations two plans have the same result, memories that agree, and called the smooth
term at the same points; an observer of the second one saw those calls and their values. -/
structure InStep (objective : Objective V) (own : Likeness V) (buffer : Cell) (f : V → V) (old : V)
    (begun : Memory V) (silent loud : Plan V) (w : Workspace V) (first : State V)
    (prepared : Memory V) (n : Nat) : Prop where
  alike : Alike own buffer (fun a b => a = b)
    ((afterIterations objective silent w first n).outcome prepared)
    ((afterIterations objective loud w first n).outcome prepared)
  started : startedPoints objective loud w first prepared n =
    startedPoints objective silent w first prepared n
  computed : computedPoints objective loud w first prepared n =
    computedPoints objective silent w first prepared n
  shown : Shown objective loud buffer f old begun w first prepared n

theorem InStep.succ_of_error {silent loud : Plan V} {n : Nat} {fault : Fault}
    (inStep : InStep objective own buffer f old begun silent loud w first prepared n)
    (left : (afterIterations objective silent w first n).outcome prepared = (.error fault, m₁))
    (right : (afterIterations objective loud w first n).outcome prepared = (.error fault, m₂)) :
    InStep objective own buffer f old begun silent loud w first prepared (n + 1) := by
  obtain ⟨alike, started, computed, shown⟩ := inStep
  rw [left, right] at alike
  refine ⟨?_, ?_, ?_, shown.succ_of_error right⟩
  · rw [outcome_afterIterations_succ_of_error left, outcome_afterIterations_succ_of_error right]
    exact ⟨.error fault, alike.agree⟩
  · simp only [startedPoints_succ, started, startedPoint?, left, right]
  · simp only [computedPoints_succ, computed, computedPoint?, left, right]

/-- One more iteration keeps an instrumented run in step with the run without instruments. -/
theorem InStep.succ (observable : objective.Observable own buffer f)
    (visible : Visible own buffer w) (asks : (plan.observing verbose history).observed = true)
    (chosen : ∀ h, history = some h → h = buffer)
    (existing : w.iterate.index < prepared.cells.size) {n : Nat}
    (takes : history.isSome → ∃ new, entered old ((computedPoints objective
      (plan.observing false none) w first prepared (n + 1)).map f) = .ok new)
    (inStep : InStep objective own buffer f old begun (plan.observing false none)
      (plan.observing verbose history) w first prepared n) :
    InStep objective own buffer f old begun (plan.observing false none)
      (plan.observing verbose history) w first prepared (n + 1) := by
  have result := inStep.alike.result
  cases left : (afterIterations objective (plan.observing false none) w first n).outcome
      prepared with
  | mk result₁ m₁ =>
  cases right : (afterIterations objective (plan.observing verbose history) w first n).outcome
      prepared with
  | mk result₂ m₂ =>
  rw [left, right] at result
  cases result with
  | error fault => exact inStep.succ_of_error left right
  | @ok s _ same =>
      subst same
      obtain ⟨alike, started, computed, shown⟩ := inStep
      have shown' := shown.succ observable visible chosen existing
        (valued_of_agree observable visible alike.agree)
      obtain ⟨observed, larger, count⟩ := shown
      rw [left, right] at alike
      rw [right] at observed larger count
      have agree := alike.agree
      obtain ⟨p, held₂⟩ := Memory.exists_content (Nat.lt_of_lt_of_le existing larger)
      have held : m₁.content w.iterate = some p := by
        rw [agree.content _ visible.iterate_foreign visible.iterate_ne_buffer, held₂]
      have unasked : (plan.observing false none).observed = false := rfl
      have evaluates := evaluate_alike unasked asks observable visible chosen agree observed held
      rw [count s rfl] at evaluates
      replace evaluates := evaluates fun keeps m' evaluated => by
        replace takes := takes keeps
        have computes : computedPoint? objective (plan.observing false none) w first prepared n =
            some p := by
          simp only [computedPoint?, left, evaluated, held]
        rwa [computedPoints_succ, computes, ← computed] at takes
      refine ⟨?_, ?_, ?_, shown'⟩
      · rw [outcome_afterIterations_succ left, outcome_afterIterations_succ right, iteration_eq,
          iteration_eq]
        refine .bind evaluates ?_
        rintro - - m₁ m₂ - - - agree
        exact moveOn_alike observable visible agree plan (n + 1) s
      · simp only [startedPoints_succ, started, startedPoint?, left, right, held, held₂]
      · have same := evaluates.result
        simp only [computedPoints_succ, computed, computedPoint?, left, right, held, held₂]
        cases first : (evaluate objective (plan.observing false none) w (n + 1)).outcome m₁
        cases second : (evaluate objective (plan.observing verbose history) w (n + 1)).outcome m₂
        rw [first, second] at same
        cases same <;> rfl

/-- An instrumented run stays in step with the run without instruments, as long as the history takes
the values. -/
theorem inStep_afterIterations (observable : objective.Observable own buffer f)
    (visible : Visible own buffer w) (asks : (plan.observing verbose history).observed = true)
    (chosen : ∀ h, history = some h → h = buffer)
    (beginning : Observed (plan.observing verbose history) buffer f old begun [] [] prepared)
    (existing : w.iterate.index < prepared.cells.size)
    (unchanged : prepared.Agree own buffer prepared) {count : Nat}
    (takes : history.isSome → ∀ n ≤ count, ∃ new, entered old ((computedPoints objective
      (plan.observing false none) w first prepared n).map f) = .ok new)
    (n : Nat) (bound : n ≤ count) :
    InStep objective own buffer f old begun (plan.observing false none)
      (plan.observing verbose history) w first prepared n := by
  induction n with
  | zero => exact ⟨.pure unchanged first, rfl, rfl, .zero beginning⟩
  | succ n ih =>
      exact (ih (Nat.le_of_succ_le bound)).succ observable visible asks chosen existing
        fun keeps => takes keeps (n + 1) bound

/-! ## Runs -/

/-- With any instruments a run has, after every number of iterations, the result and the iterate of
the run without; an observer sees the points of that run, and their values. -/
theorem outcome_observing (observable : objective.Observable own buffer f)
    (watched : Watched own plan buffer x old begun) (verbose : Bool)
    (chosen : ∀ h, history = some h → h = buffer)
    (opened : Opened plan x begun iterations w prepared)
    (takes : history.isSome → ∀ n ≤ iterations, ∃ new, entered old ((computedPoints objective
      (plan.observing false none) w first prepared n).map f) = .ok new)
    (n : Nat) (bound : n ≤ iterations) :
    ∃ result m₁ m₂,
      (afterIterations objective (plan.observing false none) w first n).outcome prepared =
        (result, m₁) ∧
      (afterIterations objective (plan.observing verbose history) w first n).outcome prepared =
        (result, m₂) ∧
      m₂.content x = m₁.content x ∧
      Observed (plan.observing verbose history) buffer f old begun
        (startedPoints objective (plan.observing false none) w first prepared n)
        (computedPoints objective (plan.observing false none) w first prepared n) m₂ := by
  have visible := watched.visible opened
  have beginning := watched.observed opened (plan.observing verbose history) f
  have existing : w.iterate.index < prepared.cells.size :=
    opened.iterate ▸ Nat.lt_of_lt_of_le opened.existing opened.larger
  cases right : (afterIterations objective (plan.observing verbose history) w first n).outcome
      prepared with
  | mk result m₂ =>
  cases asks : (plan.observing verbose history).observed with
  | false =>
      have shown : Shown objective _ buffer f old begun w first prepared n :=
        shown_of_not_observed asks observable visible chosen beginning existing n
      have observed := shown.observed
      rw [right] at observed
      have quiet : verbose = false ∧ history = none := by
        simpa [Plan.observed, Plan.observing] using asks
      obtain ⟨rfl, rfl⟩ := quiet
      exact ⟨result, m₂, m₂, right, rfl, rfl, observed⟩
  | true =>
      obtain ⟨alike, started, computed, shown⟩ := inStep_afterIterations observable visible asks
        chosen beginning existing (watched.agree opened) takes n bound
      have observed := shown.observed
      cases left : (afterIterations objective (plan.observing false none) w first n).outcome
          prepared with
      | mk result₁ m₁ =>
          rw [left, right] at alike
          rw [right, started, computed] at observed
          obtain rfl := alike.result.eq
          refine ⟨_, m₁, m₂, rfl, rfl, ?_, observed⟩
          exact (alike.agree.content x (watched.iterate_foreign opened) watched.apart).symm

end Fista

end ProxGrad
