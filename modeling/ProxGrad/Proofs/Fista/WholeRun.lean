import ProxGrad.Proofs.Fista.Calls
import ProxGrad.Proofs.Fista.Refinement

/-!
# Whole runs in exact arithmetic

`Ran` collects what a run that was started properly leaves behind: the last iterate, the points at
which the smooth term was called, the values in the history, and everything else as it was.
-/

set_option autoImplicit false

namespace ProxGrad

section Recording

variable {V α β : Type}

/-- An action that evaluates no smooth term that records its calls. -/
def Action.Unheard (a : Action V α) : Prop :=
  ∀ m : Memory V, (a.outcome m).2.evaluations = m.evaluations

namespace Action.Unheard

theorem of_silent {a : Action V α} (silent : a.Silent) : a.Unheard := by
  intro m
  rw [Memory.evaluations, silent m, Memory.evaluations]

theorem bind {a : Action V α} {next : α → Action V β} (first : a.Unheard)
    (rest : ∀ value, (next value).Unheard) : (a >>= next).Unheard :=
  same_after_bind Memory.evaluations first rest

theorem of_ok {a : Action V α} (unheard : a.Unheard) {m m' : Memory V} {value : α}
    (ran : a.outcome m = (.ok value, m')) : m'.evaluations = m.evaluations := by
  have same := unheard m
  rwa [ran] at same

end Action.Unheard

/-- An objective whose smooth term records each call that succeeds, with the point. -/
structure Objective.Records (objective : Objective V) : Prop where
  gradient {m m' : Memory V} {x out : Cell} {p : V} : m.content x = some p →
    (objective.smooth.gradient (.cell x) out).outcome m = (.ok (), m') →
    m'.evaluations = m.evaluations ++ [(.gradient, p)]
  valueAndGradient {m m' : Memory V} {x out : Cell} {p v : V} : m.content x = some p →
    (objective.smooth.valueAndGradient (.cell x) out).outcome m = (.ok v, m') →
    m'.evaluations = m.evaluations ++ [(.valueAndGradient, p)]
  prox (y step : V) (out : Cell) : (objective.proximal.prox (.const y) step out).Unheard

namespace Fista

variable {objective : Objective V} {plan : Plan V} {w : Workspace V}

theorem evaluations_of_askSmooth (records : objective.Records) {m m' : Memory V} {p : V}
    {answer : Option V} (held : m.content w.iterate = some p)
    (asked : (askSmooth objective plan w).outcome m = (.ok answer, m')) :
    m'.evaluations = m.evaluations ++ [(plan.kind, p)] := by
  unfold askSmooth at asked
  unfold Plan.kind
  split at asked <;> rename_i observes
  · obtain ⟨value, _, called, finish⟩ := Action.outcome_bind_eq_ok asked
    cases finish
    rw [if_pos observes]
    exact records.valueAndGradient held called
  · obtain ⟨_, _, called, finish⟩ := Action.outcome_bind_eq_ok asked
    cases finish
    rw [if_neg observes]
    exact records.gradient held called

variable [Calculus V]

theorem moveOn_unheard (records : objective.Records) (plan : Plan V) (w : Workspace V) (n : Nat)
    (s : State V) : (moveOn objective plan w n s).Unheard := by
  refine .bind ?_ fun _ => ?_
  · rw [proximalStep_eq]
    exact .bind (.of_silent (.of_still (still_forward w))) fun _ => records.prox _ _ _
  · split
    · exact .of_silent (accelerate_silent plan w n s)
    · exact .of_silent (.of_still (Action.still_pure _))

/-- Each iteration records one call of the smooth term, at the iterate it starts from. -/
theorem evaluations_of_afterIterations (records : objective.Records) {first s : State V}
    {prepared m : Memory V} {point : Nat → V} {n : Nat}
    (started : ∀ k < n, startedPoint? objective plan w first prepared k = some (point k))
    (ran : (afterIterations objective plan w first n).outcome prepared = (.ok s, m)) :
    m.evaluations =
      prepared.evaluations ++ (List.range n).map fun k => (plan.kind, point k) := by
  induction n generalizing s m with
  | zero =>
    cases ran
    exact (List.append_nil _).symm
  | succ n ih =>
    obtain ⟨s₀, m₀, before, last⟩ := exists_of_afterIterations_succ ran
    obtain ⟨answer, m₁, m₂, asked, noted, moved⟩ := exists_parts_of_iteration last
    have held := started n (Nat.lt_succ_self n)
    rw [startedPoint?, before] at held
    have quiet := Action.Unheard.of_silent (noteAnswer_silent plan n answer)
    rw [(moveOn_unheard records plan w (n + 1) s₀).of_ok moved, quiet.of_ok noted,
      evaluations_of_askSmooth records held asked,
      ih (fun k below => started k (Nat.lt_succ_of_lt below)) before, List.append_assoc,
      List.range_succ, List.map_append, List.map_singleton]

/-- The points at which a run calls the smooth term, one after another: the iterates from which its
iterations start. -/
def evaluatedPoints (objective : Objective V) (plan : Plan V) (x : Cell) (begun : Memory V) :
    List V :=
  match (setUp plan x).outcome begun with
  | (.ok (count, w, first), prepared) => startedPoints objective plan w first prepared count
  | (.error _, _) => []

end Fista

end Recording

namespace Fista

open Exact

variable {𝕜 : Type} [RCLike 𝕜] {shape : List Nat} {plan : Plan (Tensor 𝕜)}
  {own : TermState (Tensor 𝕜)} {objective : Objective (Tensor 𝕜)}
  {f : Point 𝕜 shape → ℝ} {G : Point 𝕜 shape → Point 𝕜 shape}
  {P : Point 𝕜 shape → ℝ → Point 𝕜 shape} {L : ℝ} {count : Nat} {x : Cell}
  {m : Memory (Tensor 𝕜)} {x₀ : Point 𝕜 shape}

/-- What a whole run leaves, in terms of the recurrence that it computes. -/
structure Ran (objective : Objective (Tensor 𝕜)) (plan : Plan (Tensor 𝕜))
    (own : TermState (Tensor 𝕜)) (f : Point 𝕜 shape → ℝ) (r : Recurrence (Point 𝕜 shape))
    (x₀ : Point 𝕜 shape) (count : Nat) (x : Cell) (m m' : Memory (Tensor 𝕜)) : Prop where
  outcome : (minimize (pure objective) plan x).outcome m = (.ok x, m')
  iterate : m'.content x = some (ofPoint (r.iterate x₀ count))
  points : evaluatedPoints objective plan x m =
    (List.range count).map fun k => ofPoint (r.iterate x₀ k)
  evaluations : objective.Records → m'.evaluations =
    m.evaluations ++ (List.range count).map fun k => (plan.kind, ofPoint (r.iterate x₀ k))
  history : ∀ h, plan.history = some h → ∃ values, m'.content h = some values ∧
    values.entries = (List.range count).map fun k => (f (r.iterate x₀ k) : 𝕜)
  kept : m.KeepsOutside (insert x own.cells ∪ historyCells plan) m'
  sound : own.sound m'
  larger : m.cells.size ≤ m'.cells.size

omit [RCLike 𝕜] in
/-- A run writes to the caller's array, to the cells of the terms and to the history; its other
cells are its own. -/
theorem keepsOutside_of_opened {w : Workspace (Tensor 𝕜)} {prepared m' : Memory (Tensor 𝕜)}
    (opened : Opened plan x m count w prepared)
    (kept : prepared.KeepsOutside (runCells plan own w) m') :
    m.KeepsOutside (insert x own.cells ∪ historyCells plan) m' := by
  intro c v outside held
  have bound := Memory.index_lt_of_content held
  have new {d : Cell} (allocated : m.cells.size ≤ d.index) : c ≠ d := by
    rintro rfl
    exact Nat.lt_irrefl _ (Nat.lt_of_lt_of_le bound allocated)
  refine kept c v ?_ ((opened.content c bound).trans held)
  rintro (same | same | (same | member) | chosen)
  · exact outside (.inl (.inl (same.trans opened.iterate)))
  · rcases opened.proximal with shared | allocated
    · exact outside (.inl (.inl (same.trans shared)))
    · exact new allocated.1 same
  · exact new opened.gradient.1 same
  · exact outside (.inl (.inr member))
  · exact outside (.inr chosen)

theorem Start.ran (start : Start plan own x m x₀ L count)
    (computes : objective.Computes own f G P) :
    ∃ m', Ran objective plan own f (recurrenceOf plan G P L) x₀ count x m m' := by
  obtain ⟨w, first, prepared, opens, rfl, layout, invariant⟩ := start.setUp G P
  obtain ⟨s, m', finished, invariant', traced⟩ :=
    invariant.afterIterations layout start.positive computes count (Nat.le_refl count)
  have opened := opened_of_setUp opens
  have started (k : Nat) (below : k < count) :
      startedPoint? objective plan w first prepared k =
        some (ofPoint ((recurrenceOf plan G P L).iterate x₀ k)) := by
    obtain ⟨s₁, m₁, reached, invariant₁, -⟩ :=
      invariant.afterIterations layout start.positive computes k below.le
    simp only [startedPoint?, reached]
    exact invariant₁.iterate
  refine ⟨m', outcome_minimize opens finished, invariant'.iterate, ?_, ?_, ?_, ?_,
    invariant'.sound, ?_⟩
  · simp only [evaluatedPoints, opens, startedPoints]
    rw [← List.filterMap_eq_map]
    exact List.filterMap_congr fun k below => started k (List.mem_range.mp below)
  · intro records
    rw [evaluations_of_afterIterations records started finished, Memory.evaluations, opened.calls]
    rfl
  · intro h chosen
    obtain ⟨_, _, values, held, shaped⟩ := start.history h chosen
    have size : values.size = count := by
      rw [Tensor.size, values.length_entries, shaped]
      simp [Shape.size]
    have held' := (opened.content h (Memory.index_lt_of_content held)).trans held
    obtain ⟨new, kept, entries⟩ := traced.history h values chosen held' size.ge
    refine ⟨new, kept, ?_⟩
    rw [entries, List.drop_of_length_le size.le, List.append_nil]
  · exact keepsOutside_of_opened opened traced.kept
  · obtain ⟨q, gradient⟩ := invariant'.gradient
    exact (opened.gradient.1.trans_lt (Memory.index_lt_of_content gradient)).le

end Fista

end ProxGrad
