import ProxGrad.Proofs.Exact.Lasso
import ProxGrad.Proofs.Fista.Invariant

/-!
# The solver refines the recurrence

In exact arithmetic the loop on arrays computes the pure recurrence: after every number of
iterations the caller's array holds the iterate. What new arrays held when they were allocated plays
no part.
-/

set_option autoImplicit false

namespace ProxGrad

namespace Fista

open Exact

variable {𝕜 : Type} [RCLike 𝕜] {shape : List Nat} {plan : Plan (Tensor 𝕜)}
  {own : TermState (Tensor 𝕜)} {objective : Objective (Tensor 𝕜)} {w : Workspace (Tensor 𝕜)}
  {f : Point 𝕜 shape → ℝ} {G : Point 𝕜 shape → Point 𝕜 shape}
  {P : Point 𝕜 shape → ℝ → Point 𝕜 shape} {L : ℝ} {count : Nat}

/-- What an exact run starts from: the parameters of its plan, the start in the caller's array, and
cells of the terms and of the history that are other cells. New arrays hold anything of their
shape. -/
structure Start (plan : Plan (Tensor 𝕜)) (own : TermState (Tensor 𝕜)) (x : Cell)
    (m : Memory (Tensor 𝕜)) (x₀ : Point 𝕜 shape) (L : ℝ) (count : Nat) : Prop where
  lipschitz : plan.lipschitz = some (real L)
  positive : 0 < L
  iterations : plan.iterations = some count
  held : m.content x = some (ofPoint x₀)
  foreign : x ∉ own.cells
  sound : own.sound m
  existing : ∀ c ∈ own.cells, c.index < m.cells.size
  leftover : ∀ c zeros, (m.leftover c zeros).shape = zeros.shape
  history : ∀ h, plan.history = some h →
    h ≠ x ∧ h ∉ own.cells ∧ ∃ values, m.content h = some values ∧ values.shape = [count]

variable {x : Cell} {m : Memory (Tensor 𝕜)} {x₀ : Point 𝕜 shape}

noncomputable def quietPlan (L : ℝ) (accelerated : Bool) (resetAfter : Option Nat) (count : Nat) :
    Plan (Tensor 𝕜) where
  lipschitz := some (real L)
  accelerated := accelerated
  resetAfter := resetAfter
  iterations := some count
  verbose := false
  history := none

theorem start_quietPlan (positive : 0 < L) (accelerated : Bool) (resetAfter : Option Nat)
    (count : Nat) (x₀ : Point 𝕜 shape) {leftover : Cell → Tensor 𝕜 → Tensor 𝕜}
    (shaped : ∀ c zeros, (leftover c zeros).shape = zeros.shape) :
    Start (quietPlan L accelerated resetAfter count) .nothing ⟨0⟩
      { cells := #[ofPoint x₀], leftover } x₀ L count where
  lipschitz := rfl
  positive := positive
  iterations := rfl
  held := rfl
  foreign := Set.notMem_empty _
  sound := trivial
  existing := fun c inside => absurd inside (Set.notMem_empty c)
  leftover := shaped
  history := fun _ chosen => nomatch chosen

theorem Start.next_foreign (start : Start plan own x m x₀ L count) {m' : Memory (Tensor 𝕜)}
    (larger : m.cells.size ≤ m'.cells.size) : m'.next ∉ own.cells := by
  intro member
  have bound := start.existing _ member
  exact Nat.lt_irrefl _ (Nat.lt_of_lt_of_le bound larger)

/-- What the cell of proximal points is chosen for. -/
structure ProximalCell (plan : Plan (Tensor 𝕜)) (own : TermState (Tensor 𝕜)) (x : Cell)
    (shape : List Nat) (m : Memory (Tensor 𝕜)) (c : Cell) (m' : Memory (Tensor 𝕜)) : Prop where
  eq_iff : c = x ↔ plan.accelerated = false
  held : ∃ q : Point 𝕜 shape, m'.content c = some (ofPoint q)
  foreign : c ∉ own.cells
  history : ∀ h, plan.history = some h → h ≠ c
  kept : m.KeepsOutside ∅ m'
  larger : m.cells.size ≤ m'.cells.size
  leftover : m'.leftover = m.leftover

theorem Start.proximalArray (start : Start plan own x m x₀ L count) :
    ∃ c m', (proximalArray plan x).outcome m = (.ok c, m') ∧
      ProximalCell plan own x shape m c m' := by
  cases mode : plan.accelerated with
  | false =>
      refine ⟨x, m, by simp [Fista.proximalArray, mode], ?_⟩
      exact {
        eq_iff := by simp [mode]
        held := ⟨x₀, start.held⟩
        foreign := start.foreign
        history := fun h chosen => (start.history h chosen).1
        kept := .refl _ m
        larger := Nat.le_refl _
        leftover := rfl }
  | true =>
      obtain ⟨q, allocated⟩ :=
        exists_outcome_freshLike (Action.outcome_readRef_cell start.held) start.leftover
      refine ⟨m.next, m.push (ofPoint q), by simpa [Fista.proximalArray, mode] using allocated, ?_⟩
      exact {
        eq_iff := by simpa [mode] using (Memory.ne_next_of_content start.held).symm
        held := ⟨q, Memory.content_push_next m _⟩
        foreign := start.next_foreign (Nat.le_refl _)
        history := by
          intro h chosen
          obtain ⟨_, _, values, held, _⟩ := start.history h chosen
          exact Memory.ne_next_of_content held
        kept := .push _ m _
        larger := by simp [Memory.push]
        leftover := rfl }

/-- The set-up of an exact run lays out its cells and establishes the invariant. -/
theorem Start.setUp (start : Start plan own x m x₀ L count) (G : Point 𝕜 shape → Point 𝕜 shape)
    (P : Point 𝕜 shape → ℝ → Point 𝕜 shape) :
    ∃ w first prepared, (setUp plan x).outcome m = (.ok (count, w, first), prepared) ∧
      w.iterate = x ∧ Layout plan own w L ∧
      Invariant plan own (recurrenceOf plan G P L) x₀ count w 0 first prepared := by
  have accepted : accept plan (ofPoint x₀) = .ok (count, real L) := by
    simp only [accept, start.iterations, start.lipschitz]
    rfl
  obtain ⟨c, m₁, chosen, cell⟩ := start.proximalArray
  have held₁ : m₁.content x = some (ofPoint x₀) := cell.kept x _ (Set.notMem_empty x) start.held
  obtain ⟨q, proximal₁⟩ := cell.held
  obtain ⟨q', allocated⟩ := exists_outcome_freshLike (Action.outcome_readRef_cell held₁)
    (cell.leftover ▸ start.leftover)
  have prepares : (prepare plan x (real L)).outcome m =
      (.ok ({ iterate := x, proximal := c, gradient := m₁.next, lipschitz := real L,
              start := real 1 },
          { momentum := real 1, previous := ofPoint x₀, accelerated := 0 }),
        m₁.push (ofPoint q')) := by
    have one : Calculus.realScalar (ofPoint x₀) (Calculus.ofNat 1) = .ok (real 1 : Tensor 𝕜) := by
      rw [ofNat_eq_real, Nat.cast_one]
      rfl
    rw [prepare, Action.outcome_bind_of_ok (Action.outcome_read start.held),
      Action.outcome_bind_of_ok chosen, Action.outcome_bind_of_ok allocated, one]
    rfl
  have opened := outcome_setUp start.held accepted prepares
  refine ⟨_, _, _, opened, rfl, ?_, ?_⟩
  · exact {
      gradient_ne_iterate := (Memory.ne_next_of_content held₁).symm
      gradient_ne_proximal := (Memory.ne_next_of_content proximal₁).symm
      proximal_eq_iterate_iff := cell.eq_iff
      iterate_foreign := start.foreign
      proximal_foreign := cell.foreign
      gradient_foreign := start.next_foreign cell.larger
      history := by
        intro h chosen
        obtain ⟨different, foreign, values, held, _⟩ := start.history h chosen
        have held' := cell.kept h values (Set.notMem_empty h) held
        exact ⟨foreign, different, cell.history h chosen, Memory.ne_next_of_content held'⟩
      lipschitz := rfl
      start := rfl }
  · exact {
      iterate := Memory.content_push_of_content held₁ _
      proximal :=
        ⟨q, Memory.content_push_of_content proximal₁ _, fun positive => absurd rfl positive⟩
      gradient := ⟨q', Memory.content_push_next m₁ _⟩
      history := by
        intro h chosen
        obtain ⟨_, _, values, held, shaped⟩ := start.history h chosen
        have held' := cell.kept h values (Set.notMem_empty h) held
        refine ⟨values, Memory.content_push_of_content held' _, ?_⟩
        rw [Tensor.size, values.length_entries, shaped]
        simp [Shape.size]
      sound := own.sound_of_keepsOutside (cell.kept.trans (.push ∅ m₁ _))
        (fun c inside => absurd inside (Set.notMem_empty c)) start.sound
      state := fun _ => rfl }

/-- What the first `n` iterations leave besides the iterate: the history has the values of the
points before each for its first entries, and no cell changed but those of the loop. -/
structure Traced (plan : Plan (Tensor 𝕜)) (own : TermState (Tensor 𝕜)) (w : Workspace (Tensor 𝕜))
    (value : Nat → ℝ) (n : Nat) (m m' : Memory (Tensor 𝕜)) : Prop where
  kept : m.KeepsOutside (runCells plan own w) m'
  history : ∀ h values, plan.history = some h → m.content h = some values → n ≤ values.size →
    ∃ new, m'.content h = some new ∧
      new.entries = (List.range n).map (fun k => (value k : 𝕜)) ++ values.entries.drop n

theorem Traced.zero (value : Nat → ℝ) (m : Memory (Tensor 𝕜)) :
    Traced plan own w value 0 m m where
  kept := .refl _ m
  history _ values _ held _ := ⟨values, held, rfl⟩

theorem Traced.succ {value : Nat → ℝ} {n : Nat} {m m' m'' : Memory (Tensor 𝕜)}
    (traced : Traced plan own w value n m m') (notes : Notes plan own w n (value n) m' m'') :
    Traced plan own w value (n + 1) m m'' where
  kept := traced.kept.trans notes.kept
  history h values chosen held room := by
    obtain ⟨new, held', entries⟩ := traced.history h values chosen held (Nat.le_of_succ_le room)
    refine ⟨_, notes.entered h new chosen held', ?_⟩
    have done : ((List.range n).map fun k => (value k : 𝕜)).length = n := by simp
    have next := set_next (done.symm ▸ room) (value n : 𝕜)
    rw [done] at next
    change new.entries.set n _ = _
    rw [entries, next, List.range_succ, List.map_append, List.map_singleton]

theorem Invariant.afterIterations (layout : Layout plan own w L) (positive : 0 < L)
    (computes : objective.Computes own f G P) {x₀ : Point 𝕜 shape} {first : State (Tensor 𝕜)}
    {prepared : Memory (Tensor 𝕜)}
    (start : Invariant plan own (recurrenceOf plan G P L) x₀ count w 0 first prepared) (n : Nat)
    (bound : n ≤ count) :
    ∃ s m, (afterIterations objective plan w first n).outcome prepared = (.ok s, m) ∧
      Invariant plan own (recurrenceOf plan G P L) x₀ count w n s m ∧
      Traced plan own w (fun k => f ((recurrenceOf plan G P L).iterate x₀ k)) n prepared m := by
  induction n with
  | zero => exact ⟨first, prepared, rfl, start, .zero _ prepared⟩
  | succ n ih =>
      obtain ⟨s, m, reached, invariant, traced⟩ := ih (Nat.le_of_succ_le bound)
      obtain ⟨s', m', advanced, invariant', notes⟩ :=
        invariant.iteration layout positive computes bound
      exact ⟨s', m', (outcome_afterIterations_succ reached).trans advanced, invariant',
        traced.succ notes⟩

/-- An exact run stands, after every number of its iterations, where the recurrence does. -/
theorem Start.reached (start : Start plan own x m x₀ L count)
    (computes : objective.Computes own f G P) :
    ∃ w, w.iterate = x ∧ Layout plan own w L ∧ ∀ n ≤ count, ∃ s m',
      Reached objective plan x m n w s m' ∧
      Invariant plan own (recurrenceOf plan G P L) x₀ count w n s m' := by
  obtain ⟨w, first, prepared, opened, same, layout, invariant⟩ := start.setUp G P
  refine ⟨w, same, layout, fun n bound => ?_⟩
  obtain ⟨s, m', reached, invariant', -⟩ :=
    invariant.afterIterations layout start.positive computes n bound
  exact ⟨s, m', ⟨count, first, prepared, opened, bound, reached⟩, invariant'⟩

theorem Start.finished (start : Start plan own x m x₀ L count)
    (computes : objective.Computes own f G P) :
    ∃ w s m', w.iterate = x ∧ (minimize (pure objective) plan x).outcome m = (.ok x, m') ∧
      Invariant plan own (recurrenceOf plan G P L) x₀ count w count s m' := by
  obtain ⟨w, first, prepared, opened, same, layout, invariant⟩ := start.setUp G P
  obtain ⟨s, m', finished, invariant', -⟩ :=
    invariant.afterIterations layout start.positive computes count (Nat.le_refl count)
  exact ⟨w, s, m', same, outcome_minimize opened finished, invariant'⟩

/-- Minimizing an objective whose terms compute `G` and `P` leaves in the caller's array, which it
gives back, the iterate of the recurrence after all iterations. -/
theorem minimize_refines_recurrence (start : Start plan own x m x₀ L count)
    (computes : objective.Computes own f G P) :
    ∃ m', (minimize (pure objective) plan x).outcome m = (.ok x, m') ∧
      m'.content x = some (ofPoint ((recurrenceOf plan G P L).iterate x₀ count)) := by
  obtain ⟨w, s, m', same, finished, invariant⟩ := start.finished computes
  refine ⟨m', finished, ?_⟩
  rw [← same]
  exact invariant.iterate

/-- Four iterations on a LASSO problem, with a reset after the second. -/
theorem minimize_lasso_refines_recurrence :
    let A : Matrix (Fin (Shape.size [2])) (Fin (Shape.size [2])) ℝ := !![1, 1; 0, 1]
    let y : Point ℝ [2] := WithLp.toLp 2 ![3, -1]
    let plan : Plan (Tensor ℝ) := quietPlan 3 true (some 2) 4
    ∃ m', (minimize (pure (lasso A y 1)) plan ⟨0⟩).outcome { cells := #[ofPoint y] } =
        (.ok ⟨0⟩, m') ∧
      m'.content ⟨0⟩ = some (ofPoint ((recurrenceOf plan
        (LeastSquares.gradientAt A.toEuclideanLin y) (softThresholdAt 1) 3).iterate y 4)) :=
  minimize_refines_recurrence (start_quietPlan three_pos true (some 2) 4 _ fun _ _ => rfl)
    (lasso_computes _ _ 1)

end Fista

end ProxGrad
