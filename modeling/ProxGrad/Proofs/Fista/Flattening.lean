import ProxGrad.Proofs.Exact.Flattening
import ProxGrad.Proofs.Fista.Feasibility
import ProxGrad.Proofs.Fista.WholeRun
import ProxGrad.Proofs.TermFootprints

/-!
# Runs on shaped and on flat arrays

A run on an array of any shape and the run on its entries in one row go through the same numbers.
The log of a run lists all calls to its terms, with the points and the steps: the two logs differ in
the shapes of the points only.
-/

set_option autoImplicit false

namespace ProxGrad

section Announcing

variable {V : Type}

/-- A term that announces its evaluations. -/
def SmoothTerm.announcing (term : SmoothTerm V) : SmoothTerm V where
  gradient x out := do
    Action.record (.evaluation .gradient (← Action.readRef x))
    term.gradient x out
  valueAndGradient x out := do
    Action.record (.evaluation .valueAndGradient (← Action.readRef x))
    term.valueAndGradient x out
  value := term.value

/-- The objective whose terms announce every call that the solver makes. -/
def Objective.announcing (name : String) (objective : Objective V) : Objective V where
  smooth := objective.smooth.announcing
  proximal := objective.proximal.announcing name

/-- An objective whose terms record nothing themselves. -/
structure Objective.Quiet (objective : Objective V) : Prop where
  gradient (x out : Cell) : (objective.smooth.gradient (.cell x) out).Silent
  valueAndGradient (x out : Cell) : (objective.smooth.valueAndGradient (.cell x) out).Silent
  prox (y step : V) (out : Cell) : (objective.proximal.prox (.const y) step out).Silent

theorem Action.Silent.of_ok {α : Type} {a : Action V α} (silent : a.Silent) {m m' : Memory V}
    {value : α} (ran : a.outcome m = (.ok value, m')) : m'.calls = m.calls := by
  have same := silent m
  rwa [ran] at same

/-! ## The log of a run -/

namespace Fista

/-- The calls of `n` iterations: an evaluation at the point where each starts, and its proximal
map. -/
def log (kind : Evaluation) (point : Nat → V) (name : String) (step : V) (n : Nat) :
    List (Call V) :=
  (List.range n).flatMap fun k => [.evaluation kind (point k), .prox name step]

theorem log_succ (kind : Evaluation) (point : Nat → V) (name : String) (step : V) (n : Nat) :
    log kind point name step (n + 1) =
      log kind point name step n ++ [.evaluation kind (point n), .prox name step] := by
  simp [log, List.range_succ]

theorem length_log (kind : Evaluation) (point : Nat → V) (name : String) (step : V) (n : Nat) :
    (log kind point name step n).length = 2 * n := by
  induction n with
  | zero => rfl
  | succ n ih => rw [log_succ, List.length_append, ih]; rfl

variable {objective : Objective V} {plan : Plan V} {w : Workspace V} {name : String} {step : V}
  {m m' : Memory V}

theorem calls_of_askSmooth (quiet : objective.Quiet) {p : V} {answer : Option V}
    (held : m.content w.iterate = some p)
    (asked : (askSmooth (objective.announcing name) plan w).outcome m = (.ok answer, m')) :
    m'.calls = m.calls.push (.evaluation plan.kind p) := by
  have seen := Action.outcome_readRef_cell held
  unfold askSmooth at asked
  unfold Plan.kind
  split at asked <;> rename_i observes
  · obtain ⟨_, _, called, finish⟩ := Action.outcome_bind_eq_ok asked
    cases finish
    rw [if_pos observes]
    exact (quiet.valueAndGradient _ _).of_ok ((Action.outcome_bind_of_ok seen).symm.trans called)
  · obtain ⟨_, _, called, finish⟩ := Action.outcome_bind_eq_ok asked
    cases finish
    rw [if_neg observes]
    exact (quiet.gradient _ _).of_ok ((Action.outcome_bind_of_ok seen).symm.trans called)

variable [Calculus V]

theorem forward_eq_ok {y : V × V} (ran : (forward w).outcome m = (.ok y, m')) :
    Calculus.div (Calculus.ofNat 1) w.lipschitz = .ok y.2 ∧ m' = m := by
  have still := still_forward w m
  rw [ran] at still
  obtain ⟨_, _, _, afterIterate⟩ := Action.outcome_bind_eq_ok ran
  obtain ⟨_, _, _, afterGradient⟩ := Action.outcome_bind_eq_ok afterIterate
  obtain ⟨_, _, _, afterPoint⟩ := Action.outcome_bind_eq_ok afterGradient
  obtain ⟨_, _, divided, finish⟩ := Action.outcome_bind_eq_ok afterPoint
  obtain ⟨divides, -⟩ := Action.outcome_lift_eq_ok divided
  cases finish
  exact ⟨divides, still⟩

theorem calls_of_moveOn (quiet : objective.Quiet)
    (divides : Calculus.div (Calculus.ofNat 1) w.lipschitz = .ok step) {n : Nat} {s s' : State V}
    (moved : (moveOn (objective.announcing name) plan w n s).outcome m = (.ok s', m')) :
    m'.calls = m.calls.push (.prox name step) := by
  obtain ⟨_, m₁, stepped, accelerated⟩ := Action.outcome_bind_eq_ok moved
  rw [proximalStep_eq] at stepped
  obtain ⟨⟨y, length⟩, m₀, found, called⟩ := Action.outcome_bind_eq_ok stepped
  obtain ⟨divided, rfl⟩ := forward_eq_ok found
  obtain rfl : step = length := Except.ok.inj (divides.symm.trans divided)
  have mapped : m₁.calls = m₀.calls.push (.prox name step) := (quiet.prox _ _ _).of_ok called
  rw [← mapped]
  split at accelerated
  · exact (accelerate_silent plan w n s).of_ok accelerated
  · exact (Action.Silent.of_still (Action.still_pure s)).of_ok accelerated

/-- Iterations log their calls, if the point from where each starts is known. -/
theorem calls_of_afterIterations (quiet : objective.Quiet)
    (divides : Calculus.div (Calculus.ofNat 1) w.lipschitz = .ok step) {first s : State V}
    {prepared : Memory V} {point : Nat → V} {n : Nat}
    (started : ∀ k < n,
      startedPoint? (objective.announcing name) plan w first prepared k = some (point k))
    (ran : (afterIterations (objective.announcing name) plan w first n).outcome prepared =
      (.ok s, m)) :
    m.calls.toList = prepared.calls.toList ++ log plan.kind point name step n := by
  induction n generalizing s m with
  | zero =>
    cases ran
    exact (List.append_nil _).symm
  | succ n ih =>
    obtain ⟨s₀, m₀, before, last⟩ := exists_of_afterIterations_succ ran
    obtain ⟨answer, m₁, m₂, asked, noted, moved⟩ := exists_parts_of_iteration last
    have held := started n (Nat.lt_succ_self n)
    rw [startedPoint?, before] at held
    rw [calls_of_moveOn quiet divides moved, (noteAnswer_silent plan n answer).of_ok noted,
      calls_of_askSmooth quiet held asked, log_succ, Array.toList_push, Array.toList_push,
      ih (fun k below => started k (Nat.lt_succ_of_lt below)) before]
    simp

end Fista

end Announcing

open Exact

variable {𝕜 : Type} [RCLike 𝕜] {shape observed : List Nat} {own : TermState (Tensor 𝕜)}

/-! ## Announcing terms that compute -/

namespace Fista

variable {objective : Objective (Tensor 𝕜)} {plan : Plan (Tensor 𝕜)}
  {f : Point 𝕜 shape → ℝ} {G : Point 𝕜 shape → Point 𝕜 shape}
  {P : Point 𝕜 shape → ℝ → Point 𝕜 shape} {L : ℝ} {count : Nat} {x : Cell}
  {m : Memory (Tensor 𝕜)} {x₀ : Point 𝕜 shape}

omit [RCLike 𝕜] in
theorem sound_recorded (sound : own.sound m) (calls : Array (Call (Tensor 𝕜))) :
    own.sound { m with calls } :=
  own.sound_of_kept (m := m) (fun _ _ _ held => held) sound

omit [RCLike 𝕜] in
/-- Announcing a call first plays no part in what it overwrites. -/
theorem overwrites_after_record {α : Type} {out : Cell} {p : Point 𝕜 shape} {result : α}
    {action : Action (Tensor 𝕜) α} {m' : Memory (Tensor 𝕜)} (call : Call (Tensor 𝕜))
    (overwrites : Overwrites own out p result action { m with calls := m.calls.push call } m') :
    Overwrites own out p result (Action.record call >>= fun _ => action) m m' where
  outcome := overwrites.outcome
  written := overwrites.written
  sound := overwrites.sound
  kept := overwrites.kept

theorem announcing_computes (name : String) (computes : objective.Computes own f G P) :
    (objective.announcing name).Computes own f G P where
  smooth := {
    gradient := by
      intro m x out p old apart seen foreign sound held destination
      obtain ⟨m', overwrites⟩ := computes.smooth.gradient
        (m := { m with calls := m.calls.push (.evaluation .gradient (ofPoint p)) }) apart seen
        foreign (sound_recorded sound _) held destination
      have announced := overwrites_after_record _ overwrites
      exact ⟨m', (Action.outcome_bind_of_ok (Action.outcome_readRef_cell held)).trans
        announced.outcome, announced.written, announced.sound, announced.kept⟩
    valueAndGradient := by
      intro m x out p old apart seen foreign sound held destination
      obtain ⟨m', overwrites⟩ := computes.smooth.valueAndGradient
        (m := { m with calls := m.calls.push (.evaluation .valueAndGradient (ofPoint p)) }) apart
        seen foreign (sound_recorded sound _) held destination
      have announced := overwrites_after_record _ overwrites
      exact ⟨m', (Action.outcome_bind_of_ok (Action.outcome_readRef_cell held)).trans
        announced.outcome, announced.written, announced.sound, announced.kept⟩ }
  proximal := {
    prox := by
      intro m out old y step positive foreign sound destination
      obtain ⟨m', overwrites⟩ := computes.proximal.prox
        (m := { m with calls := m.calls.push (.prox name (real step)) }) y positive foreign
        (sound_recorded sound _) destination
      exact ⟨m', overwrites_after_record _ overwrites⟩ }

/-- The log of an exact run. -/
theorem Start.logged (start : Start plan own x m x₀ L count)
    (computes : objective.Computes own f G P) (quiet : objective.Quiet) (name : String) :
    ∃ m', Ran (objective.announcing name) plan own f (recurrenceOf plan G P L) x₀ count x m m' ∧
      m'.calls.toList = m.calls.toList ++
        log plan.kind (fun k => ofPoint ((recurrenceOf plan G P L).iterate x₀ k)) name
          (real (1 / L)) count := by
  have announced := announcing_computes name computes
  obtain ⟨w, first, prepared, opens, rfl, layout, invariant⟩ := start.setUp G P
  obtain ⟨m', ran⟩ := start.ran announced
  refine ⟨m', ran, ?_⟩
  obtain ⟨s, m'', finished, -, -⟩ :=
    invariant.afterIterations layout start.positive announced count (Nat.le_refl count)
  cases ran.outcome.symm.trans (outcome_minimize opens finished)
  have started (k : Nat) (below : k < count) :
      startedPoint? (objective.announcing name) plan w first prepared k =
        some (ofPoint ((recurrenceOf plan G P L).iterate x₀ k)) := by
    obtain ⟨s₁, m₁, reached, invariant₁, -⟩ :=
      invariant.afterIterations layout start.positive announced k below.le
    simp only [startedPoint?, reached]
    exact invariant₁.iterate
  have divides : Calculus.div (Calculus.ofNat 1) w.lipschitz = .ok (real (1 / L) : Tensor 𝕜) := by
    rw [layout.lipschitz, ofNat_eq_real, Nat.cast_one, div_real _ start.positive.ne']
  rw [calls_of_afterIterations quiet divides started finished, (opened_of_setUp opens).calls]

/-! ## Runs on a new array -/

/-- What a run asks of its options and of the memory it begins on: a Lipschitz constant that is
positive if it is set, a history as long as the run, and cells of the terms that exist. New arrays
hold anything of their shape. -/
structure Ready (plan : Plan (Tensor 𝕜)) (own : TermState (Tensor 𝕜)) (m : Memory (Tensor 𝕜)) :
    Prop where
  lipschitz : ∀ v, plan.lipschitz = some v → ∃ L : ℝ, 0 < L ∧ v = real L
  history : ∀ h, plan.history = some h → h ∉ own.cells ∧ ∃ count values,
    plan.iterations = some count ∧ m.content h = some values ∧ values.shape = [count]
  sound : own.sound m
  existing : ∀ c ∈ own.cells, c.index < m.cells.size
  leftover : ∀ c zeros, (m.leftover c zeros).shape = zeros.shape

theorem Ready.start (ready : Ready plan own m) (iterations : plan.iterations = some count)
    (lipschitz : plan.lipschitz = some (real L)) (positive : 0 < L) (x₀ : Point 𝕜 shape) :
    Start plan own m.next (m.push (ofPoint x₀)) x₀ L count where
  lipschitz := lipschitz
  positive := positive
  iterations := iterations
  held := Memory.content_push_next m _
  foreign member := Nat.lt_irrefl _ (ready.existing _ member)
  sound := own.sound_of_keepsOutside (.push ∅ m _)
    (fun c inside => absurd inside (Set.notMem_empty c)) ready.sound
  existing c member := Memory.lt_size_push (ready.existing c member) _
  leftover := ready.leftover
  history h chosen := by
    obtain ⟨foreign, _, values, counted, held, shaped⟩ := ready.history h chosen
    cases iterations.symm.trans counted
    exact ⟨Memory.ne_next_of_content held, foreign, values, Memory.content_push_of_content held _,
      shaped⟩

theorem outcome_minimizeFrom {start : Ref (Tensor 𝕜)} {t : Tensor 𝕜}
    (seen : (Action.readRef start).outcome m = (.ok t, m)) (objective : Objective (Tensor 𝕜))
    (plan : Plan (Tensor 𝕜)) :
    (minimizeFrom objective plan start none).outcome m =
      (minimize (pure objective) plan m.next).outcome (m.push t) := by
  refine Action.outcome_bind_of_ok ?_
  rw [placeStart, Action.outcome_bind_of_ok seen]
  rfl

/-- Without a number of iterations or a Lipschitz constant, every run is refused alike. -/
theorem outcome_minimizeFrom_of_unresolved
    (unresolved : plan.iterations = none ∨ plan.lipschitz = none) :
    ∃ fault, ∀ {start : Ref (Tensor 𝕜)} {t : Tensor 𝕜} (objective : Objective (Tensor 𝕜)),
      (Action.readRef start).outcome m = (.ok t, m) →
      (minimizeFrom objective plan start none).outcome m = (.error fault, m.push t) := by
  have refused : ∃ fault, ∀ t, accept plan t = .error fault := by
    cases counted : plan.iterations with
    | none => exact ⟨.unresolved .iterations, fun t => by simp only [accept, counted]; rfl⟩
    | some count =>
      have unset : plan.lipschitz = none := unresolved.resolve_left (by simp [counted])
      exact ⟨.unresolved .lipschitz, fun t => by simp only [accept, counted, unset]; rfl⟩
  obtain ⟨fault, refuses⟩ := refused
  refine ⟨fault, fun {start t} objective seen => ?_⟩
  rw [outcome_minimizeFrom seen]
  refine outcome_minimize_of_refused ?_
  rw [setUp, Action.outcome_bind_of_ok (Action.outcome_read (Memory.content_push_next m t)),
    refuses]
  exact Action.outcome_bind_of_error (Action.outcome_lift _ _)

/-! ## Shaped and flat runs -/

/-- A call with its point in one row. -/
def flattenCall : Call (Tensor 𝕜) → Call (Tensor 𝕜)
  | .evaluation kind point => .evaluation kind point.flatten
  | call => call

omit [RCLike 𝕜] in
theorem map_flattenCall_log (kind : Evaluation) (point : Nat → Tensor 𝕜) (name : String)
    (step : Tensor 𝕜) (n : Nat) :
    (log kind point name step n).map flattenCall =
      log kind (fun k => (point k).flatten) name step n := by
  simp [log, List.map_flatMap, flattenCall]

/-- What a run on a shaped array and the run on its entries in one row leave: the result of the
second, brought to the shape, is the result of the first; the histories have the same numbers; and
the logs list the same calls, with the points in one row. -/
structure Corresponds (plan : Plan (Tensor 𝕜)) (shape : List Nat) (count : Nat) (x : Cell)
    (begun m flat : Memory (Tensor 𝕜)) : Prop where
  content : ∃ result flatResult, m.content x = some result ∧ flat.content x = some flatResult ∧
    flatResult.reshape? shape = some result
  history : ∀ h, plan.history = some h → ∃ values flatValues, m.content h = some values ∧
    flat.content h = some flatValues ∧ flatValues.entries = values.entries
  calls : ∃ log, m.calls.toList = begun.calls.toList ++ log ∧
    flat.calls.toList = begun.calls.toList ++ log.map flattenCall ∧ log.length = 2 * count

/-- Flattening carries the recurrence of a misfit and an entrywise proximal map to that of the
flattened problem. -/
theorem carries_flat (plan : Plan (Tensor 𝕜)) (A : Point 𝕜 shape →ₗ[𝕜] Point 𝕜 observed)
    (y : Point 𝕜 observed) (φ : 𝕜 → ℝ → 𝕜) (L : ℝ) :
    Recurrence.Carries (flat.toLinearEquiv.toLinearMap.restrictScalars ℝ)
      (recurrenceOf plan (LeastSquares.gradientAt A y) (onEntries φ) L)
      (recurrenceOf plan (LeastSquares.gradientAt (flatMap A) (flat y)) (onEntries φ) L) where
  gradient := LeastSquares.gradientAt_flat A y
  prox := onEntries_flat φ
  lipschitz := rfl
  accelerated := rfl
  resetAfter := rfl

theorem iterate_flat (plan : Plan (Tensor 𝕜)) (A : Point 𝕜 shape →ₗ[𝕜] Point 𝕜 observed)
    (y : Point 𝕜 observed) (φ : 𝕜 → ℝ → 𝕜) (L : ℝ) (x₀ : Point 𝕜 shape) (n : Nat) :
    (recurrenceOf plan (LeastSquares.gradientAt (flatMap A) (flat y)) (onEntries φ) L).iterate
        (flat x₀) n =
      flat ((recurrenceOf plan (LeastSquares.gradientAt A y) (onEntries φ) L).iterate x₀ n) :=
  (carries_flat plan A y φ L).iterate x₀ n

end Fista

theorem LeastSquares.quiet_ofMatrix (storage : Storage) (shape observed : List Nat)
    (matrix data : Ref (Tensor 𝕜)) {g : ProximalTerm (Tensor 𝕜)}
    (quiet : ∀ y step out, (g.prox (.const y) step out).Silent) :
    Objective.Quiet ⟨(ofMatrix storage shape observed matrix data).term, g⟩ := by
  have residual (x : Ref (Tensor 𝕜)) :
      ((ofMatrix storage shape observed matrix data).residual x).Silent :=
    .of_still <| .bind (Action.still_readRef x) fun _ => .bind (Action.still_lift _) fun _ =>
      .bind (.bind (Action.still_readRef matrix) fun _ => Action.still_lift _) fun _ =>
        .bind (Action.still_readRef data) fun _ => .bind (Action.still_lift _) fun _ =>
          Action.still_lift _
  have storeGradient (r : Tensor 𝕜) (out : Cell) :
      ((ofMatrix storage shape observed matrix data).storeGradient r out).Silent :=
    .bind (.of_still (.bind (Action.still_readRef matrix) fun _ => Action.still_lift _)) fun _ =>
      .bind (.of_still (Action.still_lift _)) fun _ => .store out _
  exact {
    gradient := fun x out => .bind (residual _) fun _ => storeGradient _ out
    valueAndGradient := fun x out => .bind (residual _) fun _ =>
      .bind (storeGradient _ out) fun _ => .of_still (Action.still_lift _)
    prox := quiet }

namespace Fista

variable {plan : Plan (Tensor 𝕜)} {m : Memory (Tensor 𝕜)} {x₀ : Point 𝕜 shape}

/-- Minimizing the misfit of a matrix plus an entrywise term from a start of any shape corresponds
to minimizing the same on the flattened data from the flattened start, with the same options: both
runs are refused alike if a parameter is missing, and otherwise both come to their end. -/
theorem minimize_commutes_with_flattening
    {matrix data flatData start flatStart : Ref (Tensor 𝕜)}
    {A : Matrix (Fin (Shape.size observed)) (Fin (Shape.size shape)) 𝕜} {y : Point 𝕜 observed}
    {g : ProximalTerm (Tensor 𝕜)} {φ : 𝕜 → ℝ → 𝕜}
    (arrays : MisfitArrays own matrix data flatData A y) (storage : Storage)
    (entrywise : g.Entrywise own φ) (quiet : ∀ y step out, (g.prox (.const y) step out).Silent)
    (ready : Ready plan own m) (seen : (Action.readRef start).outcome m = (.ok (ofPoint x₀), m))
    (flatSeen : (Action.readRef flatStart).outcome m = (.ok (ofPoint x₀).flatten, m))
    (name : String) :
    let shaped := Objective.announcing name
      ⟨(LeastSquares.ofMatrix storage shape observed matrix data).term, g⟩
    let flattened := Objective.announcing name
      ⟨(LeastSquares.ofMatrix storage [Shape.size shape] [Shape.size observed] matrix
        flatData).term, g⟩
    (plan.iterations = none ∨ plan.lipschitz = none → ∃ fault,
      (minimizeFrom shaped plan start none).outcome m = (.error fault, m.push (ofPoint x₀)) ∧
      (minimizeFrom flattened plan flatStart none).outcome m =
        (.error fault, m.push (ofPoint x₀).flatten)) ∧
    (∀ count constant, plan.iterations = some count → plan.lipschitz = some constant → ∃ m₁ m₂,
      (minimizeFrom shaped plan start none).outcome m = (.ok m.next, m₁) ∧
      (minimizeFrom flattened plan flatStart none).outcome m = (.ok m.next, m₂) ∧
      Corresponds plan shape count m.next m m₁ m₂) := by
  intro shaped flattened
  refine ⟨fun unresolved => ?_, fun count constant iterations lipschitz => ?_⟩
  · obtain ⟨fault, refused⟩ := outcome_minimizeFrom_of_unresolved (m := m) unresolved
    exact ⟨fault, refused shaped seen, refused flattened flatSeen⟩
  · obtain ⟨L, positive, rfl⟩ := ready.lipschitz constant lipschitz
    obtain ⟨m₁, ran₁, calls₁⟩ := (ready.start iterations lipschitz positive x₀).logged
      ⟨(arrays.represents storage).computes, entrywise shape⟩
      (LeastSquares.quiet_ofMatrix storage shape observed matrix data quiet) name
    obtain ⟨m₂, ran₂, calls₂⟩ := (ready.start iterations lipschitz positive (flat x₀)).logged
      ⟨(arrays.flatRepresents storage).computes, entrywise [Shape.size shape]⟩
      (LeastSquares.quiet_ofMatrix storage _ _ matrix flatData quiet) name
    rw [← ofPoint_flat] at flatSeen
    refine ⟨m₁, m₂, (outcome_minimizeFrom seen _ plan).trans ran₁.outcome,
      (outcome_minimizeFrom flatSeen _ plan).trans ran₂.outcome, ?_, ?_, ?_⟩
    · refine ⟨_, _, ran₁.iterate, ran₂.iterate, ?_⟩
      rw [iterate_flat, reshape?_ofPoint_flat]
    · intro h chosen
      obtain ⟨values, held, entries⟩ := ran₁.history h chosen
      obtain ⟨flatValues, flatHeld, flatEntries⟩ := ran₂.history h chosen
      refine ⟨values, flatValues, held, flatHeld, ?_⟩
      simp only [entries, flatEntries, iterate_flat, LeastSquares.misfitAt_flat]
    · refine ⟨_, calls₁, ?_, length_log _ _ _ _ _⟩
      rw [calls₂, map_flattenCall_log]
      simp only [iterate_flat, ofPoint_flat]
      rfl

/-- Four iterations of a LASSO problem on a column of two pixels, observed in a row, with a reset
after the second iteration and a history. -/
theorem lasso_on_column_commutes_with_flattening :
    let A : Matrix (Fin (Shape.size [1, 2])) (Fin (Shape.size [2, 1])) ℝ := !![1, 1; 0, 1]
    let y : Point ℝ [1, 2] := WithLp.toLp 2 ![3, -1]
    let x₀ : Point ℝ [2, 1] := WithLp.toLp 2 ![-2, 5]
    let plan : Plan (Tensor ℝ) := { quietPlan 3 true (some 2) 4 with history := some ⟨0⟩ }
    let m : Memory (Tensor ℝ) := { cells := #[.fill [4] 0] }
    let shaped := Objective.announcing "l1"
      ⟨(LeastSquares.ofMatrix .dense [2, 1] [1, 2] (.const (ofMatrix A)) (.const (ofPoint y))).term,
        Terms.l1 (.const (real 1))⟩
    let flattened := Objective.announcing "l1"
      ⟨(LeastSquares.ofMatrix .dense [2] [2] (.const (ofMatrix A))
        (.const (ofPoint y).flatten)).term, Terms.l1 (.const (real 1))⟩
    ∃ m₁ m₂, (minimizeFrom shaped plan (.const (ofPoint x₀)) none).outcome m = (.ok ⟨1⟩, m₁) ∧
      (minimizeFrom flattened plan (.const (ofPoint x₀).flatten) none).outcome m = (.ok ⟨1⟩, m₂) ∧
      Corresponds plan [2, 1] 4 ⟨1⟩ m m₁ m₂ := by
  intro A y x₀ plan m shaped flattened
  have arrays : MisfitArrays .nothing (.const (ofMatrix A)) (.const (ofPoint y))
      (.const (ofPoint y).flatten) A y := {
    matrix := fun m _ => Action.outcome_readRef_const _ m
    data := fun m _ => Action.outcome_readRef_const _ m
    flatData := fun m _ => Action.outcome_readRef_const _ m }
  have ready : Ready plan .nothing m := {
    lipschitz := by
      rintro _ ⟨⟩
      exact ⟨3, three_pos, rfl⟩
    history := by
      rintro _ ⟨⟩
      exact ⟨Set.notMem_empty _, 4, _, rfl, rfl, rfl⟩
    sound := trivial
    existing := fun c inside => absurd inside (Set.notMem_empty c)
    leftover := fun _ _ => rfl }
  obtain ⟨-, commutes⟩ := minimize_commutes_with_flattening arrays .dense
    (Terms.l1_entrywise fun m _ => Action.outcome_readRef_const (real 1) m)
    (fun _ _ _ => Terms.proxL1_silent _ _ _ _) ready (Action.outcome_readRef_const (ofPoint x₀) m)
    (Action.outcome_readRef_const (ofPoint x₀).flatten m) "l1"
  exact commutes 4 (real 3) rfl rfl

end Fista

end ProxGrad
