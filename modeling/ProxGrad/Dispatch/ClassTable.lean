import ProxGrad.Dispatch.Linearization

/-!
# Classes

The classes of functions, sets and options, each with the order in which its ancestors are searched.
A class is an index into the table; new classes are empty subclasses of earlier ones. A method is
looked up in the first ancestor that defines it, and a class with a method that is only declared has
no instances.
-/

set_option autoImplicit false

namespace ProxGrad

/-- A class of the table. -/
structure ClassId where
  index : Nat
deriving DecidableEq, Repr, Inhabited

/-- The methods that classes define. -/
inductive Method where
  | valueAndGradient
  | gradient
  | value
  | newGradient
  | termValue
  | call
  | add
  | prox
  | proj
  | argmin
  | residual
  | lipschitz
  | defaultOptions
  | withOptions
  | withLipschitz
  | construct
  | writing
deriving DecidableEq, Repr

/-- The name of a method that is called by name. A field of that name hides it. -/
def Method.name? : Method → Option String
  | .valueAndGradient => some "fun_grad_eval"
  | .gradient => some "grad_eval"
  | .value => some "fun_eval"
  | .newGradient => some "gradient"
  | .termValue => some "value"
  | .prox => some "prox"
  | .proj => some "proj"
  | .argmin => some "argmin"
  | .residual => some "residual"
  | .lipschitz => some "lipschitz_constant"
  | .withOptions => some "with_options"
  | .withLipschitz => some "with_lipschitz_constant"
  | .call | .add | .defaultOptions | .construct | .writing => none

/-- A class: its name, its ancestors in the order of search, the methods that it defines and those
that it only declares, and the fields that an instance cannot change, if it is a record. -/
structure ClassInfo where
  name : String
  ancestors : List ClassId
  defines : List Method := []
  declares : List Method := []
  frozenFields : Option (List String) := none
  named : Bool := true

/-- The classes in order of definition. -/
structure ClassTable where
  classes : Array ClassInfo

/-! ## The classes of the library -/

namespace ClassId

def objectClass : ClassId := ⟨0⟩
def interfaceClass : ClassId := ⟨1⟩
def differentiable : ClassId := ⟨2⟩
def proximable : ClassId := ⟨3⟩
def projectionable : ClassId := ⟨4⟩
def minimizable : ClassId := ⟨5⟩
def composite : ClassId := ⟨6⟩
def argminOptions : ClassId := ⟨7⟩
def exactArgmin : ClassId := ⟨8⟩
def fistaArgmin : ClassId := ⟨9⟩
def leastSquares : ClassId := ⟨10⟩
def squaredDistance : ClassId := ⟨11⟩
def l1Norm : ClassId := ⟨12⟩
def ridge : ClassId := ⟨13⟩
def nonNegative : ClassId := ⟨14⟩
def zeroTerm : ClassId := ⟨15⟩
def box : ClassId := ⟨16⟩
def target : ClassId := ⟨17⟩
def smooth : ClassId := ⟨18⟩
def diagonal : ClassId := ⟨19⟩
def cubic : ClassId := ⟨20⟩
def wrongGradient : ClassId := ⟨21⟩
def counting : ClassId := ⟨22⟩
def failing : ClassId := ⟨23⟩

end ClassId

namespace ClassTable

open ClassId

def initial : ClassTable :=
  let interface (own : ClassId) : List ClassId := [own, interfaceClass, objectClass]
  let smoothTerm (own : ClassId) : List ClassId := own :: interface differentiable
  let proximalTerm (own : ClassId) : List ClassId := own :: interface proximable
  ⟨#[
    { name := "object", ancestors := [objectClass], defines := [.construct, .writing] },
    { name := "ABC", ancestors := [interfaceClass, objectClass], named := false },
    { name := "DifferentiableFunction", ancestors := interface differentiable,
      defines := [.gradient, .value, .newGradient, .call, .add], declares := [.valueAndGradient] },
    { name := "ProximableFunction", ancestors := interface proximable,
      defines := [.call, .prox, .proj, .add, .defaultOptions], declares := [.termValue] },
    { name := "ProjectionableSet", ancestors := interface projectionable,
      defines := [.proj, .defaultOptions] },
    { name := "MinimizableFunction", ancestors := interface minimizable,
      defines := [.call, .argmin, .defaultOptions], declares := [.termValue] },
    { name := "DiffPlusProxFunction", ancestors := composite :: interface minimizable,
      defines := [.termValue, .withOptions, .construct, .writing],
      frozenFields := some ["diff", "prox", "options"] },
    { name := "ArgminOptions", ancestors := [argminOptions, objectClass] },
    { name := "ExactArgmin", ancestors := [exactArgmin, argminOptions, objectClass],
      defines := [.construct, .writing], frozenFields := some [] },
    { name := "ArgminFISTA", ancestors := [fistaArgmin, argminOptions, objectClass],
      defines := [.withLipschitz, .construct, .writing],
      frozenFields := some ["lipschitz_constant", "nesterov", "reset_counter", "niter", "verbose",
        "fun_history"] },
    { name := "LeastSquaresMisfit", ancestors := smoothTerm leastSquares,
      defines := [.construct, .residual, .valueAndGradient, .gradient, .value, .lipschitz] },
    { name := "SquaredDistance", ancestors := smoothTerm squaredDistance,
      defines := [.construct, .valueAndGradient] },
    { name := "L1Norm", ancestors := proximalTerm l1Norm, defines := [.construct, .termValue] },
    { name := "Ridge", ancestors := proximalTerm ridge, defines := [.construct, .termValue] },
    { name := "NonNegative", ancestors := proximalTerm nonNegative, defines := [.termValue] },
    { name := "Zero", ancestors := proximalTerm zeroTerm, defines := [.termValue] },
    { name := "Box", ancestors := box :: interface projectionable, defines := [.construct] },
    { name := "Target", ancestors := target :: interface minimizable, defines := [.termValue] },
    { name := "Smooth", ancestors := smoothTerm smooth, defines := [.valueAndGradient] },
    { name := "Diagonal", ancestors := smoothTerm diagonal,
      defines := [.construct, .valueAndGradient], named := false },
    { name := "Cubic", ancestors := smoothTerm cubic,
      defines := [.construct, .valueAndGradient], named := false },
    { name := "WrongGradient", ancestors := smoothTerm wrongGradient,
      defines := [.construct, .valueAndGradient], named := false },
    { name := "Counting", ancestors := smoothTerm counting,
      defines := [.construct, .valueAndGradient, .gradient, .value], named := false },
    { name := "Failing", ancestors := proximalTerm failing,
      defines := [.construct, .termValue], named := false }]⟩

/-! ## Looking up -/

def info (t : ClassTable) (c : ClassId) : ClassInfo :=
  t.classes.getD c.index { name := "object", ancestors := [objectClass] }

def name (t : ClassTable) (c : ClassId) : String :=
  (t.info c).name

def ancestors (t : ClassTable) (c : ClassId) : List ClassId :=
  (t.info c).ancestors

def ofName? (t : ClassTable) (name : String) : Option ClassId :=
  (List.range t.classes.size).reverse.findSome? fun i =>
    let c := t.info ⟨i⟩
    if c.named && c.name == name then some ⟨i⟩ else none

/-- Whether a class has another among its ancestors, itself included. -/
def isSubclass (t : ClassTable) (c ancestor : ClassId) : Bool :=
  (t.ancestors c).contains ancestor

/-- The first ancestor that defines or declares a method. -/
def owner? (t : ClassTable) (c : ClassId) (m : Method) : Option ClassId :=
  (t.ancestors c).find? fun a => (t.info a).defines.contains m || (t.info a).declares.contains m

def isOnlyDeclared (t : ClassTable) (c : ClassId) (m : Method) : Bool :=
  (t.owner? c m).any fun a => (t.info a).declares.contains m

/-- Whether a class has no instances because one of its methods is only declared. -/
def isAbstract (t : ClassTable) (c : ClassId) : Bool :=
  t.isOnlyDeclared c .valueAndGradient || t.isOnlyDeclared c .termValue

/-- Whether instances of a class refuse to change a field: one of its ancestors is a record that
has it, or the class itself is a record. -/
def isFrozen (t : ClassTable) (c : ClassId) (field : String) : Bool :=
  (t.ancestors c).any fun a =>
    (t.info a).frozenFields.any fun fields => a = c || fields.contains field

/-- The names of a class's ancestors, in the order of search, without those that name no class. -/
def ancestorNames (t : ClassTable) (c : ClassId) : List String :=
  ((t.ancestors c).map t.name).filter fun name => (t.ofName? name).isSome

/-- Adds an empty subclass; nothing if the orders of its parents contradict each other. -/
def extend? (t : ClassTable) (name : String) (parents : List ClassId) :
    Option (ClassTable × ClassId) := do
  let parents := if parents.isEmpty then [objectClass] else parents
  let own : ClassId := ⟨t.classes.size⟩
  let ancestors ← Linearization.ofParents? own parents t.ancestors
  return (⟨t.classes.push { name, ancestors }⟩, own)

end ClassTable

end ProxGrad
