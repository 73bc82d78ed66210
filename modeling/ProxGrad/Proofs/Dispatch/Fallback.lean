import ProxGrad.Proofs.Action
import ProxGrad.Proofs.Dispatch.Settled
import ProxGrad.Proofs.Floating

/-!
# Calls without an implementation

A call of a generic operator for which nothing is registered fails, whatever else is registered. It
is refused before anything is stored, so that the world is left as it was. Minimizing from a start
that is to be kept is the exception: the start is copied into the destination first.
-/

set_option autoImplicit false

namespace ProxGrad

/-! ## Starts -/

theorem finiteArray?_of_floating {a : NDArray} (floating : a.dtype.isInexact = true)
    (finite : a.allFinite = true) (name : String) :
    Value.finiteArray? name (.array a) = .ok none := by
  simp [Value.finiteArray?, Value.finiteArrayAs?, floating, finite, bind, Except.bind, pure,
    Except.pure]

/-- Whether minimizing accepts a start, and takes it as this array. -/
def Memory.Accepts (m : Memory Value) (start : Ref Value) (a : NDArray) : Prop :=
  ∃ v converted, (Action.readRef start).outcome m = (.ok v, m) ∧
    Calculus.finite? "initial_estimate" v = .ok converted ∧ converted.getD v = .array a

theorem Memory.accepts_of_floating {m : Memory Value} {start : Cell} {a : NDArray}
    (held : m.content start = some (.array a)) (floating : a.dtype.isInexact = true)
    (finite : a.allFinite = true) : m.Accepts (.cell start) a := by
  have accepted : Calculus.finite? "initial_estimate" (Value.array a) = .ok none := by
    change (do return (← Value.finiteArray? _ _).map Value.array) = _
    rw [finiteArray?_of_floating floating finite]
    rfl
  exact ⟨.array a, none, Action.outcome_readRef_cell held, accepted, rfl⟩

end ProxGrad

namespace ProxGrad.Session

open Act

/-- Nothing is registered for an operator, a class of a function and one of its options. -/
def World.Unimplemented (w : World) (operator : Operator) (function options : Handle) : Prop :=
  ∀ f ∈ w.ancestors function, ∀ o ∈ w.ancestors options, w.registry.find? ⟨operator, f, o⟩ = none

instance (w : World) (operator : Operator) (function options : Handle) :
    Decidable (w.Unimplemented operator function options) :=
  inferInstanceAs (Decidable (∀ f ∈ w.ancestors function, ∀ o ∈ w.ancestors options,
    w.registry.find? ⟨operator, f, o⟩ = none))

/-- The options of a call, which an absent object leaves out. -/
def World.given? (w : World) (options : Handle) : Option Handle :=
  if w.isAbsent options then none else some options

variable {w : World} {operator : Operator} {function options chosen : Handle}

theorem resolve?_eq_none_iff :
    resolve? w operator function options = none ↔ w.Unimplemented operator function options := by
  simp only [resolve?, Registry.resolve?, World.Unimplemented, List.findSome?_eq_none_iff]

theorem Act.outcome_onMemory {α : Type} {f : World → Action Value α} {result : Except Fault α}
    {m : Memory Value} (ran : (f w).outcome w.memory = (result, m)) :
    (onMemory f).outcome w = (result, { w with memory := m }) := by
  change (((f w).outcome w.memory).1, { w with memory := ((f w).outcome w.memory).2 }) = _
  rw [ran]

/-! ## Refusals -/

/-- Projections and proximal maps are refused before their destination is touched. -/
theorem outcome_applyProximal_of_unimplemented {given : Option Handle}
    (completed : chosenOptions w function given = .ok chosen)
    (unimplemented : w.Unimplemented operator function chosen) (point : Ref Value)
    (step : Option Value) (out : Cell) (m : Memory Value) :
    (applyProximal w operator function given point step (some out)).outcome m =
      (.error .notImplemented, m) := by
  rw [applyProximal, completed, Action.outcome_bind_of_ok (Action.outcome_lift _ m),
    Action.outcome_bind_of_ok (Action.outcome_pure out m)]
  simp only [resolve?_eq_none_iff.mpr unimplemented]
  exact Action.outcome_bind_of_error (Action.outcome_throw _ m)

theorem outcome_minimizeInPlace_of_unimplemented {given : Option Handle}
    (completed : chosenOptions w function given = .ok chosen)
    (unimplemented : w.Unimplemented .argmin function chosen) (x : Cell) (m : Memory Value) :
    (minimizeInPlace w function given x).outcome m = (.error .notImplemented, m) := by
  rw [minimizeInPlace, completed, Action.outcome_bind_of_ok (Action.outcome_lift _ m)]
  simp only [resolve?_eq_none_iff.mpr unimplemented]
  exact Action.outcome_throw _ m

/-- A start that is accepted goes into the destination before an implementation is looked for. -/
theorem outcome_minimize_of_accepts {start : Ref Value} {a : NDArray} {m : Memory Value}
    (accepted : m.Accepts start a) (given : Option Handle) (out : Option Cell) :
    (minimize w function given start out).outcome m =
      (match out with
        | some c => do
          Action.store c (.array a)
          minimizeInPlace w function given c
        | none => do
          minimizeInPlace w function given (← Action.allocate (.array a)) :
        Action Value Result).outcome m := by
  obtain ⟨v, converted, seen, finite, taken⟩ := accepted
  have placed : (Fista.placeStart start out).outcome m =
      (match out with
        | some c => do
          Action.store c (.array a)
          pure c
        | none => Action.allocate (.array a) : Action Value Cell).outcome m := by
    rw [Fista.placeStart, Action.outcome_bind_of_ok seen, finite,
      Action.outcome_bind_of_ok (Action.outcome_lift _ m)]
    cases out with
    | none => exact congrArg (fun v => (Action.allocate v).outcome m) taken
    | some c =>
      exact congrArg (fun v => (do Action.store c v; pure c : Action Value Cell).outcome m) taken
  rw [minimize, Action.outcome_bind, placed, ← Action.outcome_bind]
  cases out with
  | none => rfl
  | some c => exact congrArg (fun a => Action.outcome a m) (bind_assoc _ _ _)

theorem outcome_minimize_of_floating {start : Cell} {a : NDArray} {m : Memory Value}
    (held : m.content start = some (.array a)) (floating : a.dtype.isInexact = true)
    (finite : a.allFinite = true) (given : Option Handle) (out : Option Cell) :
    (minimize w function given (.cell start) out).outcome m =
      (match out with
        | some c => do
          Action.store c (.array a)
          minimizeInPlace w function given c
        | none => do
          minimizeInPlace w function given (← Action.allocate (.array a)) :
        Action Value Result).outcome m :=
  outcome_minimize_of_accepts (Memory.accepts_of_floating held floating finite) given out

/-- Whether a function or a set has the operator as a method with these arguments. -/
def World.TakesMethod (w : World) (operator : Operator) (function : Handle) : Prop :=
  ∃ owner, w.method function (if operator = .prox then .prox else .proj) = .ok owner ∧
    (operator = .prox ∨ (owner = .projectionable) = (operator = .projSet))

theorem outcome_applyOperator_of_unimplemented
    (completed : chosenOptions w function (w.given? options) = .ok chosen)
    (unimplemented : w.Unimplemented operator function chosen) (point : Handle)
    (step : Option Value) {out : Cell} (present : w.isAbsent (.data out) = false) :
    (applyOperator operator function point step options (.data out)).outcome w =
      (.error .notImplemented, w) := by
  have refused : (onMemory fun w' => applyProximal w' operator function (w.given? options)
      (w'.refOf point) step (some out)).outcome w = (.error .notImplemented, w) :=
    outcome_onMemory (outcome_applyProximal_of_unimplemented completed unimplemented _ step out _)
  rw [World.given?] at refused
  unfold applyOperator
  simp only [outcome_bind, outcome_world, present, Bool.false_eq_true, if_false, cellOf,
    outcome_map, outcome_pure, refused]

/-! ## What is left -/

/-- Calls for which nothing is registered are refused. The world stays as it is, whichever operator
is called, by its function or by a method, and whatever the destination is; only minimizing from a
start that is to be kept has stored the start into the destination by then. -/
theorem unimplemented_calls_keep_arrays
    (completed : chosenOptions w function (w.given? options) = .ok chosen) :
    (∀ operator, w.Unimplemented operator function chosen →
      ∀ point step out, w.isAbsent (.data out) = false →
        (applyOperator operator function point step options (.data out)).outcome w =
          (.error .notImplemented, w) ∧
        (w.TakesMethod operator function →
          (applyMethod operator function point step options (.data out)).outcome w =
            (.error .notImplemented, w))) ∧
    (w.Unimplemented .argmin function chosen →
      (∀ x, (onMemory fun w => minimizeInPlace w function (w.given? options) x).outcome w =
        (.error .notImplemented, w)) ∧
      ∀ start a, w.memory.content start = some (.array a) → a.dtype.isInexact = true →
        a.allFinite = true →
        (onMemory fun w => minimize w function (w.given? options) (.cell start) none).outcome w =
          (.error .notImplemented, { w with memory := w.memory.push (.array a) }) ∧
        ∀ out old, w.memory.content out = some (.array old) →
          ∃ fault, (old.shape = a.shape → fault = .notImplemented) ∧
            (onMemory fun w =>
                minimize w function (w.given? options) (.cell start) (some out)).outcome w =
              (.error fault,
                { w with memory := w.memory.put out (.array (old.store a).1) })) := by
  refine ⟨fun operator unimplemented point step out present => ?_, fun unimplemented => ⟨?_, ?_⟩⟩
  · have refused :=
      outcome_applyOperator_of_unimplemented completed unimplemented point step present
    refine ⟨refused, ?_⟩
    rintro ⟨owner, found, fits⟩
    have taken : (operator = .prox || decide ((owner = .projectionable) = (operator = .projSet)))
        = true := by
      simpa using fits
    unfold applyMethod
    simp only [outcome_bind, outcome_world, outcome_lift, found]
    rw [if_pos taken]
    exact refused
  · intro x
    exact outcome_onMemory (outcome_minimizeInPlace_of_unimplemented completed unimplemented x _)
  · intro start a held floating finite
    constructor
    · refine outcome_onMemory ?_
      rw [outcome_minimize_of_floating held floating finite]
      exact (Action.outcome_bind_of_ok (Action.outcome_allocate _ _)).trans
        (outcome_minimizeInPlace_of_unimplemented completed unimplemented _ _)
    · intro out old destination
      have stored : (Action.store out (Value.array a)).outcome w.memory =
          ((old.store a).2, w.memory.put out (.array (old.store a).1)) :=
        Action.outcome_store destination _
      cases result : (old.store a).2 with
      | ok _ =>
        rw [result] at stored
        refine ⟨.notImplemented, fun _ => rfl, outcome_onMemory ?_⟩
        rw [outcome_minimize_of_floating held floating finite]
        exact (Action.outcome_bind_of_ok stored).trans
          (outcome_minimizeInPlace_of_unimplemented completed unimplemented _ _)
      | error fault =>
        rw [result] at stored
        refine ⟨fault, fun same => ?_, outcome_onMemory ?_⟩
        · cases result.symm.trans (NDArray.store_of_shape_eq floating same.symm)
        · rw [outcome_minimize_of_floating held floating finite]
          exact Action.outcome_bind_of_error stored

def singleton (i : Int) : NDArray :=
  ⟨.float64, .ofList [.real (Binary.ofInt .double i)]⟩

/-- A world with a term for which nothing is registered, a start, a destination, and an object that
leaves the options out. -/
def besideDestination : World where
  memory := { cells := #[.array (singleton 1), .array (singleton 7), .absent] }
  objects := #[{ cls := .exactArgmin }, { cls := .zeroTerm }]

theorem zero_term_keeps_destination :
    (applyOperator .prox (.object 1) (.data ⟨0⟩) (some (.int 1)) (.data ⟨2⟩) (.data ⟨1⟩)).outcome
        besideDestination = (.error .notImplemented, besideDestination) ∧
      (onMemory fun w => minimizeInPlace w (.object 1) none ⟨1⟩).outcome besideDestination =
        (.error .notImplemented, besideDestination) := by
  have completed : chosenOptions besideDestination (.object 1)
      (besideDestination.given? (.data ⟨2⟩)) = .ok exactOptions := rfl
  have refused := unimplemented_calls_keep_arrays completed
  exact ⟨(refused.1 .prox (by decide) (.data ⟨0⟩) _ ⟨1⟩ rfl).1, (refused.2 (by decide)).1 ⟨1⟩⟩

/-- Minimizing such a term from the start is refused as well, but the destination holds the start
afterwards. -/
theorem minimize_overwrites_destination :
    let after := (onMemory fun w => minimize w (.object 1) none (.cell ⟨0⟩) (some ⟨1⟩)).outcome
      besideDestination
    besideDestination.Unimplemented .argmin (.object 1) exactOptions ∧
      after.1 = .error .notImplemented ∧
      besideDestination.memory.content ⟨1⟩ = some (.array (singleton 7)) ∧
      after.2.memory.content ⟨1⟩ = some (.array (singleton 1)) ∧
      (singleton 1).data.entries ≠ (singleton 7).data.entries := by
  refine ⟨by decide, rfl, rfl, rfl, fun same => ?_⟩
  have equal : Binary.ofInt .double 1 = Binary.ofInt .double 7 :=
    Scalar.real.inj (List.head_eq_of_cons_eq same)
  exact absurd equal (by decide)

end ProxGrad.Session
