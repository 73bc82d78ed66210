import ProxGrad.Proofs.Exact.Objective
import ProxGrad.Proofs.Fista.Run
import ProxGrad.Proofs.Recurrence

/-!
# The invariant of exact runs

`Invariant` relates the arrays and scalars of a run in exact arithmetic to the sequences of the pure
recurrence. Each iteration succeeds and keeps it: the evaluation writes the gradient at the iterate,
the proximal step the next proximal point, and the acceleration moves the iterate beyond it.
-/

set_option autoImplicit false

namespace ProxGrad

open Exact

variable {𝕜 : Type}

/-- Whether the history, if there is one, has an entry for each iteration. -/
def Fista.HistoryFits (plan : Plan (Tensor 𝕜)) (count : Nat) (m : Memory (Tensor 𝕜)) : Prop :=
  ∀ h, plan.history = some h → ∃ values, m.content h = some values ∧ values.size = count

theorem Fista.HistoryFits.of_keepsOutside {plan : Plan (Tensor 𝕜)} {count : Nat}
    {cells : Set Cell} {m m' : Memory (Tensor 𝕜)}
    (fits : HistoryFits plan count m) (kept : m.KeepsOutside cells m')
    (apart : ∀ h, plan.history = some h → h ∉ cells) : HistoryFits plan count m' := by
  intro h chosen
  obtain ⟨values, held, size⟩ := fits h chosen
  exact ⟨values, kept h values (apart h chosen) held, size⟩

def Fista.evaluationCells (plan : Plan (Tensor 𝕜)) (own : TermState (Tensor 𝕜))
    (w : Workspace (Tensor 𝕜)) : Set Cell :=
  insert w.gradient own.cells ∪ historyCells plan

theorem Fista.notMem_evaluationCells {plan : Plan (Tensor 𝕜)} {own : TermState (Tensor 𝕜)}
    {w : Workspace (Tensor 𝕜)} {c : Cell} (foreign : c ∉ own.cells) (apart : c ≠ w.gradient)
    (unkept : ∀ h, plan.history = some h → h ≠ c) : c ∉ evaluationCells plan own w := by
  rintro ((same | member) | chosen)
  · exact apart same
  · exact foreign member
  · exact unkept c chosen rfl

/-- The cells of a run's loop. -/
def Fista.runCells (plan : Plan (Tensor 𝕜)) (own : TermState (Tensor 𝕜))
    (w : Workspace (Tensor 𝕜)) : Set Cell :=
  insert w.iterate (insert w.proximal (evaluationCells plan own w))

variable [RCLike 𝕜] {shape : List Nat}

namespace Fista

/-- Whether the history, if there is one, has a number for its entry `n` besides what it had. -/
def Entered (plan : Plan (Tensor 𝕜)) (n : Nat) (value : ℝ) (m m' : Memory (Tensor 𝕜)) : Prop :=
  ∀ h values, plan.history = some h → m.content h = some values →
    m'.content h = some (values.set n (value : 𝕜))

theorem extrapolate_ofPoint (t : ℝ) (z previous : Point 𝕜 shape) :
    extrapolate (real t) (real (nextMomentum t)) (ofPoint z) (ofPoint previous) =
      .ok (ofPoint (z + Recurrence.weight t • (z - previous))) := by
  simp only [extrapolate, ofNat_eq_real, Nat.cast_one, sub_real, bind, Except.bind]
  rw [div_real _ (nextMomentum_pos t).ne']
  simp only [sub_ofPoint, mul_real_ofPoint, add_ofPoint]
  rfl

/-- How the cells of a run lie: the gradient apart from the iterate and the proximal point, these
two apart exactly if iterates are extrapolated, and the cells of terms and history apart from all.
-/
structure Layout (plan : Plan (Tensor 𝕜)) (own : TermState (Tensor 𝕜))
    (w : Workspace (Tensor 𝕜)) (L : ℝ) : Prop where
  gradient_ne_iterate : w.gradient ≠ w.iterate
  gradient_ne_proximal : w.gradient ≠ w.proximal
  proximal_eq_iterate_iff : w.proximal = w.iterate ↔ plan.accelerated = false
  iterate_foreign : w.iterate ∉ own.cells
  proximal_foreign : w.proximal ∉ own.cells
  gradient_foreign : w.gradient ∉ own.cells
  history : ∀ h, plan.history = some h →
    h ∉ own.cells ∧ h ≠ w.iterate ∧ h ≠ w.proximal ∧ h ≠ w.gradient
  lipschitz : w.lipschitz = real L
  start : w.start = real 1

def recurrenceOf (plan : Plan (Tensor 𝕜)) (G : Point 𝕜 shape → Point 𝕜 shape)
    (P : Point 𝕜 shape → ℝ → Point 𝕜 shape) (L : ℝ) : Recurrence (Point 𝕜 shape) where
  gradient := G
  prox := P
  lipschitz := L
  accelerated := plan.accelerated
  resetAfter := plan.resetAfter

/-- What the memory and the state hold after `n` iterations. -/
structure Invariant (plan : Plan (Tensor 𝕜)) (own : TermState (Tensor 𝕜))
    (r : Recurrence (Point 𝕜 shape)) (x₀ : Point 𝕜 shape) (count : Nat)
    (w : Workspace (Tensor 𝕜)) (n : Nat) (s : State (Tensor 𝕜)) (m : Memory (Tensor 𝕜)) :
    Prop where
  iterate : m.content w.iterate = some (ofPoint (r.iterate x₀ n))
  proximal : ∃ p : Point 𝕜 shape, m.content w.proximal = some (ofPoint p) ∧
    (n ≠ 0 → p = r.proximalPoint x₀ n)
  gradient : ∃ p : Point 𝕜 shape, m.content w.gradient = some (ofPoint p)
  history : HistoryFits plan count m
  sound : own.sound m
  state : plan.accelerated = true →
    s = ⟨real (r.momentum n), ofPoint (r.proximalPoint x₀ n), n⟩

variable {plan : Plan (Tensor 𝕜)} {own : TermState (Tensor 𝕜)} {objective : Objective (Tensor 𝕜)}
  {w : Workspace (Tensor 𝕜)} {f : Point 𝕜 shape → ℝ} {G : Point 𝕜 shape → Point 𝕜 shape}
  {P : Point 𝕜 shape → ℝ → Point 𝕜 shape} {L : ℝ} {count : Nat}

theorem setEntry_real {values : Tensor 𝕜} {i : Nat} (bound : i < values.size) (r : ℝ) :
    Calculus.setEntry values i (real r) = .ok (values.set i (r : 𝕜)) := by
  change setEntry values i (real r) = _
  simp [setEntry, number, real, Tensor.scalar, Nat.not_le.mpr bound, bind, Except.bind, pure,
    Except.pure]

theorem Entered.before_kept {n : Nat} {value : ℝ} {cells : Set Cell} {m m' m'' : Memory (Tensor 𝕜)}
    (entered : Entered plan n value m m') (kept : m'.KeepsOutside cells m'')
    (apart : ∀ h, plan.history = some h → h ∉ cells) : Entered plan n value m m'' :=
  fun h values chosen held => kept h _ (apart h chosen) (entered h values chosen held)

theorem Entered.after_kept {n : Nat} {value : ℝ} {cells : Set Cell} {m m' m'' : Memory (Tensor 𝕜)}
    (kept : m.KeepsOutside cells m') (apart : ∀ h, plan.history = some h → h ∉ cells)
    (entered : Entered plan n value m' m'') : Entered plan n value m m'' :=
  fun h values chosen held => entered h values chosen (kept h values (apart h chosen) held)

theorem outcome_remember {n : Nat} (bound : n < count) (r : ℝ) {m : Memory (Tensor 𝕜)}
    (fits : HistoryFits plan count m) :
    ∃ m', (remember plan (n + 1) (real r)).outcome m = (.ok (), m') ∧ HistoryFits plan count m' ∧
      m.KeepsOutside (historyCells plan) m' ∧ Entered plan n r m m' := by
  cases chosen : plan.history with
  | none =>
      refine ⟨m, outcome_remember_of_no_history chosen _ _ m, fits, .refl _ m, fun h _ same => ?_⟩
      cases chosen.symm.trans same
  | some h =>
      obtain ⟨values, held, size⟩ := fits h chosen
      have stored := setEntry_real (size ▸ bound) r
      refine ⟨m.put h (values.set n (r : 𝕜)), ?_, ?_, .put chosen m _, ?_⟩
      · rw [outcome_remember_of_history chosen held, stored]
      · intro h' same
        cases chosen.symm.trans same
        refine ⟨_, Memory.content_put_self held _, ?_⟩
        simpa [Tensor.size, Tensor.set] using size
      · intro h' values' same held'
        cases chosen.symm.trans same
        cases held.symm.trans held'
        exact Memory.content_put_self held _

/-- An evaluation writes the gradient at the iterate and the value into the history, and stores into
no other cell of the loop. -/
theorem outcome_evaluate (layout : Layout plan own w L) (computes : objective.Computes own f G P)
    {n : Nat} (bound : n < count) {m : Memory (Tensor 𝕜)} {p old : Point 𝕜 shape}
    (iterate : m.content w.iterate = some (ofPoint p))
    (gradient : m.content w.gradient = some (ofPoint old)) (fits : HistoryFits plan count m)
    (sound : own.sound m) :
    ∃ m', (evaluate objective plan w (n + 1)).outcome m = (.ok (), m') ∧
      m'.content w.gradient = some (ofPoint (G p)) ∧ HistoryFits plan count m' ∧ own.sound m' ∧
      m.KeepsOutside (evaluationCells plan own w) m' ∧ Entered plan n (f p) m m' := by
  have apart : ∀ h, plan.history = some h → h ∉ insert w.gradient own.cells := by
    intro h chosen member
    obtain ⟨foreign, _, _, different⟩ := layout.history h chosen
    rcases member with same | member
    · exact different same
    · exact foreign member
  cases observed : plan.observed with
  | false =>
      obtain ⟨m₁, ran, written, sound₁, kept⟩ := computes.smooth.gradient
        layout.gradient_ne_iterate.symm layout.iterate_foreign layout.gradient_foreign sound
        iterate gradient
      refine ⟨m₁, ?_, written, fits.of_keepsOutside kept apart, sound₁,
        kept.mono Set.subset_union_left, fun h _ chosen => ?_⟩
      · simpa [evaluate, observed] using ran
      · simp [Plan.observed, chosen] at observed
  | true =>
      obtain ⟨m₁, ran, written, sound₁, kept⟩ := computes.smooth.valueAndGradient
        layout.gradient_ne_iterate.symm layout.iterate_foreign layout.gradient_foreign sound
        iterate gradient
      obtain ⟨m₂, remembered, fits₂, kept₂, entered⟩ :=
        outcome_remember bound (f p) (fits.of_keepsOutside kept apart)
      obtain ⟨reports, announced, _⟩ := outcome_announce plan (n + 1) (real (f p)) m₂
      have sound₂ : own.sound { m₂ with reports } :=
        own.sound_of_keepsOutside kept₂ (fun h chosen => (layout.history h chosen).1) sound₁
      refine ⟨{ m₂ with reports }, ?_, ?_, fits₂, sound₂, ?_, entered.after_kept kept apart⟩
      · rw [evaluate, if_pos observed, Action.outcome_bind_of_ok ran,
          Action.outcome_bind_of_ok remembered, announced]
      · exact kept₂ _ _ (fun chosen => apart _ chosen (Set.mem_insert _ _)) written
      · exact (kept.mono Set.subset_union_left).trans (kept₂.mono Set.subset_union_right)

theorem outcome_proximalStep (layout : Layout plan own w L) (positive : 0 < L)
    (computes : objective.Computes own f G P) {m : Memory (Tensor 𝕜)} {p old : Point 𝕜 shape}
    (iterate : m.content w.iterate = some (ofPoint p))
    (gradient : m.content w.gradient = some (ofPoint (G p)))
    (proximal : m.content w.proximal = some (ofPoint old)) (sound : own.sound m) :
    ∃ m', (proximalStep objective w).outcome m = (.ok (), m') ∧
      m'.content w.proximal = some (ofPoint ((recurrenceOf plan G P L).step p)) ∧ own.sound m' ∧
      m.KeepsOutside (insert w.proximal own.cells) m' := by
  have forward : (do Calculus.sub (ofPoint p) (← Calculus.div (ofPoint (G p)) w.lipschitz)) =
      .ok (ofPoint (p - L⁻¹ • G p)) := by
    rw [layout.lipschitz, div_ofPoint_real _ positive.ne']
    exact sub_ofPoint p (L⁻¹ • G p)
  have length : Calculus.div (Calculus.ofNat 1) w.lipschitz = .ok (real (1 / L) : Tensor 𝕜) := by
    rw [layout.lipschitz, ofNat_eq_real, Nat.cast_one, div_real _ positive.ne']
  obtain ⟨m', ran, written, sound', kept⟩ := computes.proximal.prox (p - L⁻¹ • G p)
    (one_div_pos.mpr positive) layout.proximal_foreign sound proximal
  refine ⟨m', ?_, written, sound', kept⟩
  rw [proximalStep, Action.outcome_bind_of_ok (Action.outcome_read iterate),
    Action.outcome_bind_of_ok (Action.outcome_read gradient), forward,
    Action.outcome_bind_of_ok (Action.outcome_lift _ m), length,
    Action.outcome_bind_of_ok (Action.outcome_lift _ m), ran]

theorem advance_eq (layout : Layout plan own w L) (n : Nat) (previous z : Tensor 𝕜) :
    State.advance ⟨real ((recurrenceOf plan G P L).momentum n), previous, n⟩ plan w
        (real (nextMomentum ((recurrenceOf plan G P L).momentum n))) z =
      ⟨real ((recurrenceOf plan G P L).momentum (n + 1)), z, n + 1⟩ := by
  have reset : (recurrenceOf plan G P L).momentum (n + 1) =
      if plan.resetAfter.any (· ≤ n + 1) then 1
      else nextMomentum ((recurrenceOf plan G P L).momentum n) := rfl
  rw [State.advance, layout.start, reset]
  cases plan.resetAfter.any (· ≤ n + 1) <;> rfl

theorem moved_eq (accelerated : plan.accelerated = true) (x₀ : Point 𝕜 shape) (n : Nat) :
    moved (n + 1) ⟨real ((recurrenceOf plan G P L).momentum n),
        ofPoint ((recurrenceOf plan G P L).proximalPoint x₀ n), n⟩
        (real (nextMomentum ((recurrenceOf plan G P L).momentum n)))
        (ofPoint ((recurrenceOf plan G P L).proximalPoint x₀ (n + 1))) =
      .ok (ofPoint ((recurrenceOf plan G P L).iterate x₀ (n + 1))) := by
  cases n with
  | zero => rfl
  | succ n =>
      rw [moved, if_neg (by omega), extrapolate_ofPoint,
        (recurrenceOf plan G P L).iterate_add_two x₀ accelerated]

theorem outcome_accelerate (layout : Layout plan own w L) (accelerated : plan.accelerated = true)
    (x₀ : Point 𝕜 shape) (n : Nat) {m : Memory (Tensor 𝕜)} {old : Point 𝕜 shape}
    (iterate : m.content w.iterate = some (ofPoint old))
    (proximal : m.content w.proximal =
      some (ofPoint ((recurrenceOf plan G P L).proximalPoint x₀ (n + 1)))) :
    (accelerate plan w (n + 1) ⟨real ((recurrenceOf plan G P L).momentum n),
        ofPoint ((recurrenceOf plan G P L).proximalPoint x₀ n), n⟩).outcome m =
      (.ok ⟨real ((recurrenceOf plan G P L).momentum (n + 1)),
          ofPoint ((recurrenceOf plan G P L).proximalPoint x₀ (n + 1)), n + 1⟩,
        m.put w.iterate (ofPoint ((recurrenceOf plan G P L).iterate x₀ (n + 1)))) := by
  have written := Action.outcome_store iterate
    (ofPoint ((recurrenceOf plan G P L).iterate x₀ (n + 1)))
  rw [store_ofPoint] at written
  rw [accelerate, momentum_real, Action.outcome_bind_of_ok (Action.outcome_lift _ m),
    Action.outcome_bind_of_ok (Action.outcome_read proximal), moved_eq accelerated,
    Action.outcome_bind_of_ok (Action.outcome_lift _ m), Action.outcome_bind_of_ok written,
    store_ofPoint, Action.outcome_bind_of_ok (Action.outcome_lift _ _), advance_eq layout]
  rfl

theorem Layout.proximal_ne_iterate (layout : Layout plan own w L)
    (accelerated : plan.accelerated = true) : w.proximal ≠ w.iterate := by
  intro same
  have plain := layout.proximal_eq_iterate_iff.mp same
  rw [accelerated] at plain
  cases plain

/-- What the memory holds between the proximal step of iteration `n + 1` and its acceleration. -/
structure Halfway (plan : Plan (Tensor 𝕜)) (own : TermState (Tensor 𝕜))
    (r : Recurrence (Point 𝕜 shape)) (x₀ : Point 𝕜 shape) (count : Nat)
    (w : Workspace (Tensor 𝕜)) (n : Nat) (m : Memory (Tensor 𝕜)) : Prop where
  iterate : plan.accelerated = true → m.content w.iterate = some (ofPoint (r.iterate x₀ n))
  proximal : m.content w.proximal = some (ofPoint (r.proximalPoint x₀ (n + 1)))
  gradient : ∃ p : Point 𝕜 shape, m.content w.gradient = some (ofPoint p)
  history : HistoryFits plan count m
  sound : own.sound m

/-- What an iteration leaves besides the next iterate: the value of the one before is in the
history, and no cell changed but those of the loop. -/
structure Notes (plan : Plan (Tensor 𝕜)) (own : TermState (Tensor 𝕜)) (w : Workspace (Tensor 𝕜))
    (n : Nat) (value : ℝ) (m m' : Memory (Tensor 𝕜)) : Prop where
  kept : m.KeepsOutside (runCells plan own w) m'
  entered : Entered plan n value m m'

omit [RCLike 𝕜] in
theorem evaluationCells_subset_runCells :
    evaluationCells plan own w ⊆ runCells plan own w :=
  (Set.subset_insert _ _).trans (Set.subset_insert _ _)

omit [RCLike 𝕜] in
theorem insert_proximal_subset_runCells (plan : Plan (Tensor 𝕜)) (own : TermState (Tensor 𝕜))
    (w : Workspace (Tensor 𝕜)) : insert w.proximal own.cells ⊆ runCells plan own w := by
  have within : own.cells ⊆ evaluationCells plan own w :=
    (Set.subset_insert _ _).trans Set.subset_union_left
  exact (Set.insert_subset_insert within).trans (Set.subset_insert _ _)

theorem Invariant.halfway (layout : Layout plan own w L) (positive : 0 < L)
    (computes : objective.Computes own f G P) {x₀ : Point 𝕜 shape} {n : Nat} (bound : n < count)
    {s : State (Tensor 𝕜)} {m : Memory (Tensor 𝕜)}
    (invariant : Invariant plan own (recurrenceOf plan G P L) x₀ count w n s m) :
    ∃ m₁ m₂, (evaluate objective plan w (n + 1)).outcome m = (.ok (), m₁) ∧
      (proximalStep objective w).outcome m₁ = (.ok (), m₂) ∧
      Halfway plan own (recurrenceOf plan G P L) x₀ count w n m₂ ∧
      Notes plan own w n (f ((recurrenceOf plan G P L).iterate x₀ n)) m m₂ := by
  obtain ⟨iterate, ⟨p, proximal, _⟩, ⟨q, gradient⟩, history, sound, _⟩ := invariant
  obtain ⟨m₁, evaluates, gradient₁, history₁, sound₁, kept₁, entered⟩ :=
    outcome_evaluate layout computes bound iterate gradient history sound
  have iterate₁ := kept₁ _ _ (notMem_evaluationCells layout.iterate_foreign
    layout.gradient_ne_iterate.symm fun h chosen => (layout.history h chosen).2.1) iterate
  have proximal₁ := kept₁ _ _ (notMem_evaluationCells layout.proximal_foreign
    layout.gradient_ne_proximal.symm fun h chosen => (layout.history h chosen).2.2.1) proximal
  obtain ⟨m₂, steps, proximal₂, sound₂, kept₂⟩ :=
    outcome_proximalStep layout positive computes iterate₁ gradient₁ proximal₁ sound₁
  have gradient₂ := kept₂ _ _ (fun member =>
    member.elim layout.gradient_ne_proximal layout.gradient_foreign) gradient₁
  have apart (h : Cell) (chosen : plan.history = some h) : h ∉ insert w.proximal own.cells := by
    obtain ⟨foreign, _, different, _⟩ := layout.history h chosen
    exact fun member => member.elim different foreign
  refine ⟨m₁, m₂, evaluates, steps, ⟨?_, proximal₂, ⟨_, gradient₂⟩, ?_, sound₂⟩, ?_, ?_⟩
  · intro accelerated
    exact kept₂ _ _ (fun member =>
      member.elim (layout.proximal_ne_iterate accelerated).symm layout.iterate_foreign) iterate₁
  · exact history₁.of_keepsOutside kept₂ apart
  · exact (kept₁.mono evaluationCells_subset_runCells).trans
      (kept₂.mono (insert_proximal_subset_runCells plan own w))
  · exact entered.before_kept kept₂ apart

/-- The acceleration restores the invariant for the next iteration. -/
theorem Halfway.invariant_of_accelerated (layout : Layout plan own w L)
    (accelerated : plan.accelerated = true) {x₀ : Point 𝕜 shape} {n : Nat}
    {m : Memory (Tensor 𝕜)}
    (halfway : Halfway plan own (recurrenceOf plan G P L) x₀ count w n m) :
    Invariant plan own (recurrenceOf plan G P L) x₀ count w (n + 1)
      ⟨real ((recurrenceOf plan G P L).momentum (n + 1)),
        ofPoint ((recurrenceOf plan G P L).proximalPoint x₀ (n + 1)), n + 1⟩
      (m.put w.iterate (ofPoint ((recurrenceOf plan G P L).iterate x₀ (n + 1)))) where
  iterate := Memory.content_put_self (halfway.iterate accelerated) _
  proximal := by
    refine ⟨_, ?_, fun _ => rfl⟩
    rw [Memory.content_put_of_ne (layout.proximal_ne_iterate accelerated)]
    exact halfway.proximal
  gradient := by
    obtain ⟨q, gradient⟩ := halfway.gradient
    refine ⟨q, ?_⟩
    rw [Memory.content_put_of_ne layout.gradient_ne_iterate]
    exact gradient
  history := halfway.history.of_keepsOutside (.put (Set.mem_singleton _) m _)
    fun h chosen => (layout.history h chosen).2.1
  sound := own.sound_of_keepsOutside (.put (Set.mem_singleton _) m _)
    (fun c same => same ▸ layout.iterate_foreign) halfway.sound
  state := fun _ => rfl

/-- Without acceleration the proximal point is the next iterate, in the same cell. -/
theorem Halfway.invariant_of_plain (layout : Layout plan own w L)
    (plain : plan.accelerated = false) {x₀ : Point 𝕜 shape} {n : Nat} {m : Memory (Tensor 𝕜)}
    (halfway : Halfway plan own (recurrenceOf plan G P L) x₀ count w n m) (s : State (Tensor 𝕜)) :
    Invariant plan own (recurrenceOf plan G P L) x₀ count w (n + 1) s m where
  iterate := by
    rw [← layout.proximal_eq_iterate_iff.mpr plain, Recurrence.iterate_of_not_accelerated _ _ plain]
    exact halfway.proximal
  proximal := ⟨_, halfway.proximal, fun _ => rfl⟩
  gradient := halfway.gradient
  history := halfway.history
  sound := halfway.sound
  state := by
    intro accelerated
    rw [plain] at accelerated
    cases accelerated

/-- Each iteration succeeds and keeps the invariant. -/
theorem Invariant.iteration (layout : Layout plan own w L) (positive : 0 < L)
    (computes : objective.Computes own f G P) {x₀ : Point 𝕜 shape} {n : Nat} (bound : n < count)
    {s : State (Tensor 𝕜)} {m : Memory (Tensor 𝕜)}
    (invariant : Invariant plan own (recurrenceOf plan G P L) x₀ count w n s m) :
    ∃ s' m', (iteration objective plan w (n + 1) s).outcome m = (.ok s', m') ∧
      Invariant plan own (recurrenceOf plan G P L) x₀ count w (n + 1) s' m' ∧
      Notes plan own w n (f ((recurrenceOf plan G P L).iterate x₀ n)) m m' := by
  obtain ⟨m₁, m₂, evaluates, steps, halfway, kept, entered⟩ :=
    invariant.halfway layout positive computes bound
  rw [Fista.iteration, Action.outcome_bind_of_ok evaluates, Action.outcome_bind_of_ok steps]
  cases mode : plan.accelerated with
  | true =>
      have accelerates :=
        outcome_accelerate layout mode x₀ n (halfway.iterate mode) halfway.proximal
      have moved : m₂.KeepsOutside {w.iterate} (m₂.put w.iterate _) :=
        .put (Set.mem_singleton _) m₂ (ofPoint ((recurrenceOf plan G P L).iterate x₀ (n + 1)))
      refine ⟨_, _, ?_, halfway.invariant_of_accelerated layout mode, ?_, ?_⟩
      · rw [if_pos rfl, invariant.state mode, accelerates]
      · exact kept.trans (moved.mono (Set.singleton_subset_iff.mpr (Set.mem_insert _ _)))
      · exact entered.before_kept moved fun h chosen => (layout.history h chosen).2.1
  | false => exact ⟨s, m₂, by simp, halfway.invariant_of_plain layout mode s, kept, entered⟩

end Fista

end ProxGrad
