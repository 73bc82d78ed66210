import ProxGrad.Analysis.GradientCheck
import ProxGrad.Session.Fields

/-!
# Instances of a session

The making of options, terms and composites. An instance is made by the constructor of the first of
its class's ancestors that has one, with the parameters which that constructor names.
-/

set_option autoImplicit false

namespace ProxGrad.Session

open Act

/-! ## Options -/

def describe (w : World) (h : Handle) : Description :=
  let options := w.fistaOptions? h
  { typeName := w.typeName h
    fista := options
    history := (options.bind (·.history)).bind fun c =>
      match w.memory.cells[c.index]? with
      | some (.array a) => some (a.dtype, a.shape)
      | _ => none }

def fistaOf (h : Handle) : Act FistaOptions := do
  match (← world).fistaOptions? h with
  | some o => return o
  | none => throw .noField

def newFista (cls : ClassId) (o : FistaOptions) : Act (Answer × Option Handle) := do
  let h ← newInstance { cls, body := .fista o }
  return (.described (describe (← world) h), some h)

/-- The arguments of a constructor by name. -/
abbrev Given := List (String × Handle)

def FistaArguments.named (a : FistaArguments) : List (String × Operand) :=
  [(Configuration.Field.lipschitz, a.lipschitz), (.accelerated, a.accelerated),
    (.resetCounter, a.resetCounter), (.iterations, a.iterations), (.verbose, a.verbose),
    (.history, a.history)].filterMap fun (field, o) => o.map fun o => (field.name, o)

def givenObjects (arguments : List (String × Operand)) : Act Given :=
  arguments.mapM fun (name, o) => do return (name, ← operand o)

/-- The options that the constructor makes of its arguments, kept as they are given. -/
def constructFista (given : Given) : Act FistaOptions := do
  let w ← world
  let names := Configuration.Field.all.map Configuration.Field.name
  if given.any fun a => !(names.contains a.1) then throw .operandTypes
  let get (f : Configuration.Field) : Value := ((given.lookup f.name).map w.shown).getD f.initial
  let history ← match given.lookup Configuration.Field.history.name with
    | none => pure none
    | some h => if w.isAbsent h then pure none else do pure (some (← cellOf h, w.shown h))
  lift (FistaOptions.make (get .lipschitz) (get .accelerated) (get .resetCounter)
    (get .iterations) (get .verbose) history)

def buildFista (a : FistaArguments) : Act FistaOptions := do
  let given ← givenObjects a.named
  let w ← world
  let get (f : Configuration.Field) : Value := ((given.lookup f.name).map w.shown).getD f.initial
  onMemory fun _ =>
    FistaOptions.build w.space (get .lipschitz) (get .accelerated) (get .resetCounter)
      (get .iterations) (get .verbose) (get .history)

/-! ## Least squares -/

/-- The rows and columns of an array taken as a matrix: a list of numbers is one row. -/
def matrixSides (a : NDArray) : Except Fault (Nat × Nat) :=
  match a.shape with
  | [] => .ok (1, 1)
  | [n] => .ok (1, n)
  | [m, n] => .ok (m, n)
  | _ => .error .shapes

def arrayOf (h : Handle) : Act NDArray := do
  match (← world).content? h with
  | some (.array a) => return a
  | _ => throw .operandTypes

def denseOperator (h : Handle) : Act (LinearOperator Value) := do
  let (m, n) ← lift (matrixSides (← arrayOf h))
  return .ofMatrix .dense m n ((← world).refOf h)

def makeOperator : OperatorSource → Act (LinearOperator Value)
  | .matrix o => do denseOperator (← operand o)
  | .compressed o => do
    let a ← arrayOf (← operand o)
    let (m, n) ← lift (matrixSides a)
    if !NDArray.isStorable a.dtype then throw .shapes
    return .ofMatrix .sparse m n (.const (.array a))
  | .subsample height width => return .subsample height width
  | .withoutAdjoint o => do
    let h ← operand o
    match (← arrayOf h).shape with
    | [m, n] => return .withoutAdjoint m n ((← world).refOf h)
    | _ => throw .shapes

/-- The product of the sides of a shape. Sides are multiplied in their common element type, in which
integers wrap. -/
def sidesProduct (sides : List Value) : Except Fault Scalar := do
  let a ← (Value.tuple sides).toArray none
  let a ← a.convertTo (← NDArray.sumType a.dtype)
  match a.dtype with
  | .object => a.data.entries.foldlM (Scalar.applyLiteral .mul) (.int 1)
  | d => return a.data.entries.foldl (Scalar.apply d .mul) ((Scalar.int 1).cast d)

def integerPart : Binary → Except Fault Int
  | .nan => .error (.conversion .nanToInteger)
  | x =>
    match x.truncate? with
    | some i => .ok i
    | none => .error .overflow

def sidesCount (sides : List Value) : Except Fault Int := do
  match ← sidesProduct sides with
  | .int i => return i
  | .bool b => return b.toNat
  | .real x | .complex x _ => integerPart x
  | .ratio num den => return num.tdiv den
  | .decimal (.finite n) =>
    match Scalar.truncateDecimal? n with
    | some i => return i
    | none => throw .overflow
  | _ => throw .operandTypes

/-- The items of a value that has items: the keys of a mapping, the characters of a text, and the
parts of an array along its first side. -/
def itemsOf : Value → Except Fault (List Value)
  | .list xs | .tuple xs => .ok xs
  | .dict fields => .ok (fields.map fun field => .text field.1)
  | .text s => .ok (s.toList.map fun c => .text (String.singleton c))
  | .array a =>
    match a.shape with
    | [] => .error .operandTypes
    | [_] => .ok (a.data.entries.map (Value.scalar a.dtype))
    | side :: sides =>
      let width := Shape.size sides
      (List.range side).mapM fun i =>
        let part := (a.data.entries.drop (i * width)).take width
        (NDArray.reshape ⟨a.dtype, .ofList part⟩ sides).map .array
  | _ => .error .operandTypes

/-- The fields of a least-squares term with the given operator, and what is told of it. -/
def leastSquaresFields (operator : LinearOperator Value) (observed inputShape : Handle) :
    Act (Given × Answer) := do
  let y ← onMemory fun w => GradientCheck.accept "y" (w.refOf observed)
  let data ← lift (← onMemory fun _ => Action.readRef y).array?
  if data.size ≠ operator.rows then throw (.dataSize data.size operator.rows)
  let w ← world
  let sides ← if w.isAbsent inputShape then pure [Value.int operator.columns]
    else lift (itemsOf (w.shown inputShape))
  if (← lift (sidesCount sides)) ≠ (operator.columns : Int) then
    throw (.inputShape (Value.tuple sides).written operator.columns)
  let a ← newInstance { cls := .objectClass, body := .operator operator }
  let y ← match y with
    | .cell c => pure (.data c)
    | .const v => newData v
  let shape ← newData (.tuple sides)
  return ([("A", a), ("y", y), ("input_shape", shape)],
    .leastSquares operator.rows operator.columns data.dtype data.shape sides)

def makeLeastSquares (source : OperatorSource) (observed : Operand)
    (inputShape : Option Operand) : Act (Answer × Option Handle) := do
  let operator ← makeOperator source
  let observed ← operand observed
  let shape ← optional inputShape
  let (fields, answer) ← leastSquaresFields operator observed shape
  let h ← newInstance { cls := .leastSquares, fields }
  return (answer, some h)

/-! ## Constructors -/

/-- The parameters of a constructor, each with the object that it is when left out; one without is
required. -/
def parametersOf (c : ClassId) : List (String × Option Value) :=
  if c = .squaredDistance then [("y", none)]
  else if c = .diagonal then [("d", none)]
  else if c = .cubic then [("c", none)]
  else if c = .wrongGradient then [("factor", some (realLiteral 1))]
  else if c = .l1Norm || c = .ridge then [("weight", some (realLiteral 1))]
  else if c = .box then [("lower", some (realLiteral 0)), ("upper", some (realLiteral 1))]
  else if c = .failing then [("fail_at", some (.int 0))]
  else if c = .composite then [("diff", none), ("prox", none)]
  else if c = .leastSquares then [("A", none), ("y", none), ("input_shape", some .absent)]
  else []
where
  realLiteral (n : Int) : Value := .real (Binary.ofInt .double n)

def isExtra (c : ClassId) (name : String) : Bool :=
  c = .composite && name == "options"

def constructFields (owner : ClassId) (given : Given) : Act Given := do
  let parameters := parametersOf owner
  let names := parameters.map Prod.fst
  if given.any fun a => !(names.contains a.1 || isExtra owner a.1) then throw .operandTypes
  parameters.mapM fun (name, initial) => do
    match given.lookup name, initial with
    | some h, _ => return (name, h)
    | none, some v => return (name, ← newData v)
    | none, none => throw .operandTypes

def asArray (h : Handle) : Act Handle := do
  let w ← world
  match w.content? h with
  | some (.array _) => return h
  | _ => newData (.array (← lift ((w.shown h).toArray none)))

def fieldsOf (owner : ClassId) (given : Given) : Act Given := do
  let fields ← constructFields owner given
  if [ClassId.squaredDistance, .diagonal, .cubic].contains owner then
    fields.mapM fun (name, h) => do return (name, ← asArray h)
  else if owner = .failing then return fields ++ [("calls", ← newData (.int 0))]
  else if owner = .composite then
    return fields ++ [("options", (given.lookup "options").getD exactOptions)]
  else if owner = .leastSquares then
    match fields with
    | [(_, a), (_, y), (_, shape)] => return (← leastSquaresFields (← denseOperator a) y shape).1
    | _ => throw .operandTypes
  else return fields

/-- A new instance of a class. A class with a method that is only declared has none. -/
def instantiate (c : ClassId) (given : Given) : Act Handle := do
  let w ← world
  if w.classes.isAbstract c then throw .operandTypes
  let owner := (w.classes.owner? c .construct).getD .objectClass
  if owner = .fistaArgmin then
    newInstance { cls := c, body := .fista (← constructFista given) }
  else newInstance { cls := c, fields := ← fieldsOf owner given }

def newOptions (c : ClassId) (a : FistaArguments) : Act (Answer × Option Handle) := do
  let h ← instantiate c (← givenObjects a.named)
  return (.described (describe (← world) h), some h)

/-- The options bound to another Lipschitz constant, of the class of the given ones. -/
def rebind (h : Handle) (lipschitz : Value) : Act (Answer × Option Handle) := do
  let w ← world
  let options ← fistaOf h
  let _ ← lift (w.method h .withLipschitz)
  let bound ← lift (options.withLipschitz lipschitz)
  match w.instance? h with
  | some { cls, body := .fista _, .. } =>
    newFista cls (← lift (bound.copied fun c => w.shown (.data c)))
  | _ => throw .operandTypes

def assignOptions (h : Handle) : Option Operand → Act Unit
  | none => pure ()
  | some o => do setField h "options" (← operand o)

def makeSmooth : SmoothSource → Act (Answer × Option Handle)
  | .leastSquares source observed inputShape => makeLeastSquares source observed inputShape
  | .counting inner failAt => do
    let inner ← operand inner
    let failAt ← optional failAt
    let calls ← newData (.int 0)
    let h ← newInstance
      { cls := .counting, body := .counting inner,
        fields := [("fail_at", failAt), ("calls", calls)] }
    return (.text ((← world).typeName h), some h)
  | .ofClass c arguments => do
    let h ← instantiate c (← givenObjects arguments)
    return (.text ((← world).typeName h), some h)

/-! ## Classes and registrations -/

def defineClass (name : String) (bases : List String) : Act (Answer × Option Handle) := do
  let parents ← bases.mapM classNamed
  match (← world).classes.extend? name parents with
  | none => throw .operandTypes
  | some (classes, c) =>
    modifyWorld fun w => { w with classes }
    return (.names (classes.ancestorNames c), none)

/-- Registers an implementation and warns where it replaces another without leave. -/
def registerImplementation (operator : Operator) (f o : ClassId) (name : String) (override : Bool) :
    Act Answer := do
  let w ← world
  let implementation := Implementation.supplied name
  let key : Registry.Key ClassId := ⟨operator, f, o⟩
  if let some existing := w.registry.replaced? key implementation override then
    let text := "Overriding existing " ++ operator.name ++ " for (" ++ w.classes.name f ++ ", "
      ++ w.classes.name o ++ "): " ++ existing.text ++ " -> " ++ implementation.text
      ++ ". Use override=True to suppress this warning."
    modifyWorld fun w => { w with warnings := w.warnings.push text }
  modifyWorld fun w => { w with registry := w.registry.register key implementation }
  return .text implementation.text

def keepImplementation (i : Supplied) : Act Unit :=
  modifyWorld fun w =>
    if w.supplied.any fun known => known.name == i.name then w
    else { w with supplied := w.supplied ++ [i] }

def register (operator f o : String) (implementation : Registered)
    (override decorated viaOperator : Bool) : Act Answer := do
  if let .supplied i := implementation then keepImplementation i
  let f ← classNamed f
  let o ← classNamed o
  match Operator.ofName? operator with
  | none => throw (if viaOperator then .noField else .invalidOperator operator)
  | some operator =>
    match implementation with
    | .supplied i => registerImplementation operator f o i.name override
    | .value v =>
      if v.isAbsent && !decorated then return .text "decorator"
      else throw (.notCallable v.written)

/-! ## Composites -/

def composed (h : Handle) : Act Answer := do
  let w ← world
  match w.field? h "diff", w.field? h "prox", w.field? h "options" with
  | some diff, some prox, some options =>
    return .composite (w.nameOf diff) (w.nameOf prox) (describe w options)
  | _, _, _ => throw .noField

def newComposite (diff prox options : Handle) : Act Handle :=
  newInstance
    { cls := .composite, fields := [("diff", diff), ("prox", prox), ("options", options)] }

def combineTerms (first second options : Handle) : Act Handle := do
  let w ← world
  if w.isInstance first .differentiable && w.isInstance second .proximable then
    newComposite first second options
  else if w.isInstance first .proximable && w.isInstance second .differentiable then
    newComposite second first options
  else throw (.cannotCombine (w.typeName first) (w.typeName second))

/-- The sum of two objects. The first one's class decides which of the two is differentiated. Other
objects are added as values, and their sum is no composite. -/
def addTerms (first second : Handle) : Act Handle := do
  let w ← world
  let owner := w.owner? first .add
  if owner = some .differentiable && w.isInstance second .proximable then
    combineTerms first second exactOptions
  else if owner = some .proximable && w.isInstance second .differentiable then
    combineTerms second first exactOptions
  else
    let _ ← lift (Calculus.add (w.shown first) (w.shown second))
    throw .noField

/-- A composite like another with other options, made by the constructor of its class. -/
def replaceOptions (h options : Handle) : Act Handle := do
  let w ← world
  let _ ← lift (w.method h .withOptions)
  match w.field? h "diff", w.field? h "prox", w.instance? h with
  | some diff, some prox, some i =>
    instantiate i.cls [("diff", diff), ("prox", prox), ("options", options)]
  | _, _, _ => throw .noField

end ProxGrad.Session
