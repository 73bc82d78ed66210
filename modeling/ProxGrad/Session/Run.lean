import ProxGrad.Analysis.PowerIteration
import ProxGrad.Session.Instances

/-!
# Running a session

Requests run in order, each on the world that the one before left, whether that one failed or not. A
request that fails binds no variable.
-/

set_option autoImplicit false

namespace ProxGrad.Session

open Act

/-! ## Evaluations -/

def evaluateValue (kind : Evaluated) (h : Handle) (x : Ref Value) : Act Answer := do
  match kind with
  | .call => return .typed (← onMemory fun w => callValue w h x)
  | .value => return .typed (← onMemory fun w => (smoothTerm w h).value x)
  | _ => return .typed (← onMemory fun w => termValue w h x)

def evaluate (kind : Evaluated) (of x out : Operand) : Act (Answer × Option Handle) := do
  let h ← operand of
  let xh ← operand x
  let x := (← world).refOf xh
  match kind with
  | .call | .value | .termValue => return (← evaluateValue kind h x, none)
  | .gradient =>
    let _ ← lift ((← world).method h .newGradient)
    let out ← onMemory fun w => (smoothTerm w h).newGradient x
    return (.value (← onMemory fun _ => Action.read out), some (.data out))
  | .residual =>
    let _ ← lift ((← world).method h .residual)
    let f ← lift (leastSquaresOf (← world) h)
    let r ← onMemory fun _ => f.residual x
    return (.value r, some (← newData r))
  | .valueAndGradient | .gradientInto =>
    let out ← cellOf (← operand out)
    let returned ← if kind = .valueAndGradient then
        some <$> onMemory fun w => (smoothTerm w h).valueAndGradient x out
      else do
        onMemory fun w => (smoothTerm w h).gradient x out
        pure none
    return (.evaluated returned (← onMemory fun _ => Action.read out), none)

/-! ## Analyses -/

def drawnArray (like : Value) (xs : List Binary) : Except Fault Value := do
  let a ← like.array?
  match Tensor.ofShape? a.shape (xs.map Scalar.real) with
  | some data => return .array ⟨.float64, data⟩
  | none => throw .shapes

/-- A direction from the given draws: one for a real point, two for the parts of a complex one. -/
def draw (draws : List (List Binary)) (point : Value) : Action Value Value := do
  let shape := (← Action.lift point.array?).shape
  let one (i : Nat) : Action Value Value := do
    Action.record (.standardNormal shape)
    match draws[i]? with
    | some xs => Action.lift (drawnArray point xs)
    | none => throw .index
  let direction ← one 0
  if Calculus.isComplex point then
    let imaginary ← one 1
    Action.lift (do Calculus.add direction (← Calculus.rotate imaginary))
  else return direction

def gradientQuery (q : GradientQuery) :
    Act (Handle × Ref Value × Value × Option (Ref Value)) := do
  let f ← operand q.term
  let x ← operand q.point
  let step ← optionalValue (.real (Binary.ofDecimal .double false 1 (-5))) q.step
  let direction ← optional q.direction
  let w ← world
  return (f, w.refOf x, step, if w.isAbsent direction then none else some (w.refOf direction))

def countOf (v : Value) : Except Fault Nat :=
  match v with
  | .bool b => .ok b.toNat
  | .array ⟨.int .., ⟨[], [.int n], _⟩⟩ => .ok n.toNat
  | v =>
    match v.integer? with
    | some n => .ok n.toNat
    | none => .error .operandTypes

def estimateLipschitz (h : Handle) (start : List Binary) (count tolerance : Value) :
    Act Value := do
  let w ← world
  let _ ← lift (w.method h .lipschitz)
  let operator ← lift (operatorOf w h)
  let start := Value.array ⟨.float64, .ofList (start.map Scalar.real)⟩
  onMemory fun _ => PowerIteration.estimate operator (countOf count) tolerance start

/-! ## Results -/

/-- The answer that shows an object, to be completed with the variables that stand for it. -/
def resulting (r : Result) : Act (Answer × Option Handle) := do
  let h ← match r with
    | .cell c => pure (Handle.data c)
    | .nothing => newData .absent
  return (.result [] ((← world).shown h), some h)

def applyOperator (operator : Operator) (function point : Handle) (step : Option Value)
    (options out : Handle) : Act (Answer × Option Handle) := do
  let w ← world
  let chosen := if w.isAbsent options then none else some options
  let out ← if w.isAbsent out then pure none else some <$> cellOf out
  let c ← onMemory fun w => applyProximal w operator function chosen (w.refOf point) step out
  resulting (.cell c)

/-- Applies the method of a function or a set. The projection of a function has a level and that of
a set none: a call with one argument more than it takes fails, and with one less each stands in the
place before its own. -/
def applyMethod (operator : Operator) (function point : Handle) (step : Option Value)
    (options out : Handle) : Act (Answer × Option Handle) := do
  let w ← world
  let owner ← lift (w.method function (if operator = .prox then .prox else .proj))
  if operator = .prox || (owner = .projectionable) = (operator = .projSet) then
    applyOperator operator function point step options out
  else if operator = .proj then throw .operandTypes
  else applyOperator .proj function point (some (w.shown options)) out (← newData .absent)

/-! ## Entries -/

/-- The position of an index in a side, counted from the end where it is below zero. -/
def position (n : Nat) (index : Int) : Except Fault Nat :=
  let i := if index < 0 then index + n else index
  if 0 ≤ i && i < n then .ok i.toNat else .error .index

def writeRow (a : NDArray) (index : Int) (v : Value) :
    Except Fault (NDArray × Except Fault Unit) := do
  match a.shape with
  | [] => throw .index
  | n :: rest =>
    let i ← position n index
    let width := Shape.size rest
    let entries := a.data.entries
    match Tensor.ofShape? rest ((entries.drop (i * width)).take width) with
    | none => throw .shapes
    | some row =>
      match Value.store (.array ⟨a.dtype, row⟩) v with
      | (.array r, result) =>
        let written := entries.take (i * width) ++ r.data.entries ++ entries.drop ((i + 1) * width)
        match Tensor.ofShape? a.shape written with
        | some data => return (⟨a.dtype, data⟩, result)
        | none => throw .shapes
      | _ => throw .shapes

def writeAt (content : Value) (index : Int) (v : Value) :
    Except Fault (Value × Except Fault Unit) := do
  match content with
  | .array a =>
    match a.shape with
    | [n] => return (← Calculus.setEntry content (← position n index) v, .ok ())
    | _ =>
      let (b, result) ← writeRow a index v
      return (.array b, result)
  | .list xs => return (.list (xs.set (← position xs.length index) v), .ok ())
  | .dict fields => return (.dict fields, .ok ())
  | _ => throw .operandTypes

/-- Whether two objects are equal: exact options of one class are, all other instances are equal to
themselves only, and data is compared as values. -/
def equalObjects (w : World) (a b : Handle) : Except Fault Bool :=
  match w.instance? a, w.instance? b with
  | some i, some j =>
    .ok (a == b || (i.cls = j.cls && w.classes.isSubclass i.cls .exactArgmin))
  | _, _ =>
    match w.shown a with
    | .list _ | .tuple _ | .dict _ =>
      if a == b then .ok true else Value.related .equal (w.shown a) (w.shown b)
    | v => Value.related .equal v (w.shown b)

/-! ## Requests -/

def perform : Step → Act (Answer × Option Handle)
  | .array o => do
    let h ← operand o
    return (.value ((← world).shown h), some h)
  | .inspect o => do
    let h ← operand o
    let w ← world
    if w.isInstance h .argminOptions then return (.described (describe w h), some h)
    else return (.value (w.shown h), some h)
  | .same a b => do
    let a ← operand a
    let b ← operand b
    return (.flag ((← world).isSame a b), none)
  | .equal a b => do
    let a ← operand a
    let b ← operand b
    return (.flag (← lift (equalObjects (← world) a b)), none)
  | .write o index v => do
    let h ← operand o
    let v ← operandValue v
    let c ← cellOf h
    onMemory fun _ => do
      let (content, result) ← Action.lift (writeAt (← Action.read c) index v)
      Action.write c content
      Action.lift result
    return (.value ((← world).shown h), some h)
  | .setField o field v => do
    let h ← operand o
    let v ← operand v
    setField h field v
    return (.nothing, none)
  | .exactOptions shared => do
    let h ← if shared then pure Session.exactOptions else newInstance { cls := .exactArgmin }
    return (.described (describe (← world) h), some h)
  | .fista a => do newFista .fistaArgmin (← buildFista a)
  | .direct name a => do newOptions (← classNamed name) a
  | .setLipschitz o lipschitz => do
    let h ← operand o
    rebind h (← operandValue lipschitz)
  | .getLipschitz o => do
    let options ← fistaOf (← operand o)
    return (.echo options.lipschitz, ← some <$> newData options.lipschitz)
  | .history o => do
    let options ← fistaOf (← operand o)
    match options.history with
    | some c => return (.value ((← world).shown (.data c)), some (.data c))
    | none => return (.nothing, some (← newData .absent))
  | .defineClass name bases => defineClass name bases
  | .new name arguments options => do
    let c ← classNamed name
    let h ← instantiate c (← givenObjects arguments)
    assignOptions h options
    return (.text ((← world).typeName h), some h)
  | .register operator f o implementation override decorated viaOperator => do
    return (← register operator f o implementation override decorated viaOperator, none)
  | .unregister operator f o => do
    let f ← classNamed f
    let o ← classNamed o
    let operator ← operatorNamed operator
    modifyWorld fun w => { w with registry := w.registry.unregister ⟨operator, f, o⟩ }
    return (.nothing, none)
  | .resolve operator f o => do
    let f ← operand f
    let o ← operand o
    let operator ← operatorNamed operator
    return (.text (((resolve? (← world) operator f o).map Implementation.text).getD
      "not_implemented"), none)
  | .isImplemented operator f o => do
    let f ← operand f
    let o ← operand o
    let operator ← operatorNamed operator
    return (.flag (resolve? (← world) operator f o).isSome, none)
  | .smooth source => makeSmooth source
  | .proximal c arguments options => do
    let h ← instantiate c (← givenObjects arguments)
    assignOptions h options
    return (.text ((← world).typeName h), some h)
  | .eval kind o x out => evaluate kind o x out
  | .combine first second options => do
    let first ← operand first
    let second ← operand second
    let h ← combineTerms first second ((← given options).getD exactOptions)
    return (← composed h, some h)
  | .add first second => do
    let first ← operand first
    let h ← addTerms first (← operand second)
    return (← composed h, some h)
  | .withOptions o options => do
    let h ← operand o
    let new ← replaceOptions h (← operand options)
    return (← composed new, some new)
  | .fields o => do
    let h ← operand o
    return (← composed h, some h)
  | .argmin f start options out viaMethod => do
    let f ← operand f
    let start ← operand start
    let options ← given options
    let out ← destination out
    if viaMethod then discard (lift ((← world).method f .argmin))
    resulting (← onMemory fun w => minimize w f options (w.refOf start) out)
  | .argminInPlace f x options => do
    let f ← operand f
    let x ← cellOf (← operand x)
    let options ← given options
    resulting (← onMemory fun w => minimizeInPlace w f options x)
  | .fistaInPlace f x options => do
    let f ← operand f
    let x ← cellOf (← operand x)
    let options ← operand options
    resulting (.cell (← onMemory fun w => runFista (minimizationRequest w f options x)))
  | .proximalMap operator f point step options out viaMethod => do
    let f ← operand f
    let point ← operand point
    let step ← match step with
      | some o => some <$> operandValue o
      | none => pure none
    let options ← operand options
    let out ← operand out
    if viaMethod then applyMethod operator f point step options out
    else applyOperator operator f point step options out
  | .lipschitz o start count tolerance => do
    let h ← operand o
    let count ← optionalValue (.int 50) count
    let tolerance ← optionalValue (.real (Binary.ofDecimal .double false 1 (-7))) tolerance
    let v ← estimateLipschitz h start count tolerance
    return (.typed v, some (← newData v))
  | .gradientError q => do
    let (f, x, step, direction) ← gradientQuery q
    let e ← onMemory fun w => GradientCheck.error (smoothTerm w f) x step direction (draw q.draws)
    return (.error e, some (← newData e))
  | .checkGradient q tolerance => do
    let (f, x, step, direction) ← gradientQuery q
    let tolerance ← optionalValue (.real (Binary.ofDecimal .double false 1 (-6))) tolerance
    let agreed ← onMemory fun w =>
      GradientCheck.agrees (smoothTerm w f) x step tolerance direction (draw q.draws)
    return (.typed agreed, some (← newData agreed))

def bindVariable (name : String) (h : Handle) (w : World) : World :=
  if w.bindings.any fun v => v.1 == name then
    { w with bindings := w.bindings.map fun v => if v.1 == name then (name, h) else v }
  else { w with bindings := w.bindings ++ [(name, h)] }

/-- Runs one request: its answer with what was observed, and the world after it. -/
def runRequest (r : Request) (w : World) : Outcome × World :=
  let w := { w with
    memory := { w.memory with calls := #[], reports := #[] }
    warnings := #[] }
  let (result, w) := (perform r.step).run w
  let (answer, w) : Except Fault Answer × World := match result with
    | .error fault => (.error fault, w)
    | .ok (answer, h) =>
      let w := match r.bind, h with
        | some name, some h => bindVariable name h w
        | _, _ => w
      match answer, h with
      | .result _ v, some h => (.ok (.result (w.namesOf h) v), w)
      | answer, _ => (.ok answer, w)
  ({ answer, warnings := w.warnings.toList, reports := w.memory.reports.toList,
     calls := w.memory.calls.toList }, w)

/-- Runs a session on a machine with space for so many bytes, or for any number. -/
def run (space : Option Nat) (requests : List Request) : List Outcome :=
  go { space } requests
where
  go (w : World) : List Request → List Outcome
    | [] => []
    | r :: rest =>
      let (outcome, w) := runRequest r w
      outcome :: go w rest

end ProxGrad.Session
