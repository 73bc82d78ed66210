import ProxGrad.Session.Terms
import ProxGrad.Solver.Fista

/-!
# Operators of a session

The generic operators: each completes the options and the destination, resolves an implementation
for the classes of the function and of the options, and runs it. Without an implementation the
operator is not implemented for them.
-/

set_option autoImplicit false

namespace ProxGrad.Session

open Calculus

/-- The arguments of an operator implementation. -/
structure Arguments where
  function : Handle
  options : Handle
  point : Ref Value
  step : Option Value
  out : Cell

/-- The plan of options, once their flags are known. -/
def planOf (o : FistaOptions) (accelerated verbose : Bool) : Plan Value where
  lipschitz := if o.lipschitz.isAbsent then none else some o.lipschitz
  accelerated
  resetAfter := o.resetCounter.integer?.map Int.toNat
  iterations := FistaOptions.loopCount o.iterations
  verbose
  history := o.history

/-- What an implementation is handed of the arguments of an operator that stores an image. -/
def Arguments.request (a : Arguments) (w : World) : ImageRequest where
  functionType := w.typeName a.function
  optionsType := w.typeName a.options
  field? name := (w.field? a.function name).map w.refOf
  parameters? := w.fistaOptions? a.options
  point := a.point
  step := a.step
  out := a.out

def runFailing (w : World) (a : Arguments) : Action Value Unit := do
  if ← isSpent w a.function (← readField w a.function "fail_at") then throw (.term .prox)
  countUp w a.function
  Action.store a.out (← Action.lift (entries (← Action.readRef a.point)))

def runProximal (w : World) (i : Implementation) (a : Arguments) : Action Value Unit := do
  let step := a.step.getD .absent
  match i with
  | .proxL1 =>
    Action.record (.prox i.text step)
    Terms.proxL1 (← w.fieldRef a.function "weight") a.point step a.out
  | .proxRidge =>
    Action.record (.prox i.text step)
    Terms.proxRidge (← w.fieldRef a.function "weight") a.point step a.out
  | .proxNonNegative =>
    Action.record (.prox i.text step)
    Terms.proxNonNegative a.point a.out
  | .proxFailing => runFailing w a
  | .projBox =>
    Terms.projectBox (← w.fieldRef a.function "lower") (← w.fieldRef a.function "upper") a.point
      a.out
  | .supplied name =>
    match w.supplied.find? fun i => i.name == name with
    | some i => let _ ← i.storeImage (a.request w)
    | none => throw .unknownName
  | .fista => throw .operandTypes

def resolve? (w : World) (operator : Operator) (function options : Handle) :
    Option Implementation :=
  w.registry.resolve? operator (w.ancestors function) (w.ancestors options)

def chosenOptions (w : World) (function : Handle) (options : Option Handle) :
    Except Fault Handle :=
  match options with
  | some o => .ok o
  | none => w.optionsOf function

/-- Applies an operator that writes a point's image into a destination, a new one if none is
given. -/
def applyProximal (w : World) (operator : Operator) (function : Handle)
    (options : Option Handle) (point : Ref Value) (step : Option Value) (out : Option Cell) :
    Action Value Cell := do
  let options ← Action.lift (chosenOptions w function options)
  let out ← match out with
    | some c => pure c
    | none => Action.freshLike point
  match resolve? w operator function options with
  | none => throw .notImplemented
  | some i => runProximal w i { function, options, point, step, out }
  return out

/-- The proximal term that an object stands for: its proximal map is resolved for the options that
it carries. -/
def proximalTerm (w : World) (h : Handle) : ProximalTerm Value where
  prox y step out := do
    let _ ← applyProximal w .prox h none y (some step) (some out)
  value := termValue w h

def objectiveOf (w : World) (h : Handle) : Except Fault (Objective Value) := do
  match w.field? h "diff", w.field? h "prox" with
  | some diff, some prox =>
    return { smooth := smoothTerm w diff, proximal := proximalTerm w prox }
  | _, _ => throw .noField

/-- What an implementation that minimizes in place is handed. -/
def minimizationRequest (w : World) (function options : Handle) (x : Cell) :
    MinimizationRequest where
  functionType := w.typeName function
  optionsType := w.typeName options
  objective := objectiveOf w function
  parameters? := w.fistaOptions? options
  x := x

/-- Runs the accelerated method. A flag is asked for its truth after the parameters and the point
were checked, the one that makes a run verbose after the terms were looked up. -/
def runFista (r : MinimizationRequest) : Action Value Cell := do
  match r.parameters? with
  | some o =>
    let _ ← Action.lift (Fista.accept (planOf o false false) (← Action.read r.x))
    let accelerated ← Action.lift o.accelerated.truth?
    let objective ← Action.lift r.objective
    let verbose ← Action.lift o.verbose.truth?
    Fista.minimize (pure objective) (planOf o accelerated verbose) r.x
  | none => throw .noField

def minimizeInPlace (w : World) (function : Handle) (options : Option Handle) (x : Cell) :
    Action Value Result := do
  let options ← Action.lift (chosenOptions w function options)
  let request := minimizationRequest w function options x
  match resolve? w .argmin function options with
  | none => throw .notImplemented
  | some .fista => return .cell (← runFista request)
  | some (.supplied name) =>
    match w.supplied.find? fun i => i.name == name with
    | some i => i.minimizeInPlace request
    | none => throw .unknownName
  | some _ => throw .operandTypes

/-- Minimizes a function from a start that is left as it is. The start is copied into the
destination, a new one if none is given. -/
def minimize (w : World) (function : Handle) (options : Option Handle) (start : Ref Value)
    (out : Option Cell) : Action Value Result := do
  minimizeInPlace w function options (← Fista.placeStart start out)

end ProxGrad.Session
