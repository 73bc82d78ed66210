import ProxGrad.Configuration.Basic
import ProxGrad.Dispatch.ClassTable
import ProxGrad.Dispatch.Registry
import ProxGrad.Session.Supplied
import ProxGrad.Terms.LeastSquares
import ProxGrad.Terms.Proximal

/-!
# The world of a session

A session names objects: data in cells of the memory, and instances of classes with fields. The
world holds them together with the classes and the registered operators. What an instance does
follows from the first of its class's ancestors that defines the method in question.
-/

set_option autoImplicit false

namespace ProxGrad.Session

/-- An object: data in a cell, or an instance. -/
inductive Handle where
  | data (c : Cell)
  | object (index : Nat)
deriving DecidableEq, Repr, Inhabited

/-- What an instance carries besides its fields. -/
inductive Body where
  | plain
  | fista (options : FistaOptions)
  | operator (a : LinearOperator Value)
  /-- Reports the calls made to another term. -/
  | counting (inner : Handle)

/-- An instance of a class. -/
structure Instance where
  cls : ClassId
  body : Body := .plain
  fields : List (String × Handle) := []

/-- The implementations that can be registered; those that the caller supplies are known by name. -/
inductive Implementation where
  | fista
  | proxL1
  | proxRidge
  | proxNonNegative
  | proxFailing
  | projBox
  | supplied (name : String)
deriving DecidableEq, Repr

def Implementation.text : Implementation → String
  | .fista => "fista_argmin_"
  | .proxL1 => "prox_l1"
  | .proxRidge => "prox_ridge"
  | .proxNonNegative => "prox_nonnegative"
  | .proxFailing => "prox_failing"
  | .projBox => "proj_box"
  | .supplied name => "impl:" ++ name

def initialRegistry : Registry ClassId Implementation :=
  ⟨[(⟨.argmin, .composite, .fistaArgmin⟩, .fista),
    (⟨.prox, .l1Norm, .exactArgmin⟩, .proxL1),
    (⟨.prox, .ridge, .exactArgmin⟩, .proxRidge),
    (⟨.prox, .nonNegative, .exactArgmin⟩, .proxNonNegative),
    (⟨.prox, .failing, .exactArgmin⟩, .proxFailing),
    (⟨.projSet, .box, .exactArgmin⟩, .projBox)]⟩

/-- Everything that a session holds. -/
structure World where
  memory : Memory Value := {}
  /-- The bytes that the machine has for a history, if there is a bound. -/
  space : Option Nat := none
  /-- The first instance is the exact options that all terms share. -/
  objects : Array Instance := #[{ cls := ClassId.exactArgmin }]
  bindings : List (String × Handle) := []
  classes : ClassTable := .initial
  registry : Registry ClassId Implementation := initialRegistry
  supplied : List Supplied := []
  warnings : Array String := #[]

def exactOptions : Handle := .object 0

def defaultFista : FistaOptions :=
  { lipschitz := .absent, accelerated := .bool true, resetCounter := .absent, iterations := .absent,
    verbose := .bool false, history := none }

namespace World

variable (w : World)

def instance? : Handle → Option Instance
  | .data _ => none
  | .object i => w.objects[i]?

def content? : Handle → Option Value
  | .data c => w.memory.cells[c.index]?
  | .object _ => none

def typeName (h : Handle) : String :=
  match w.instance? h with
  | some i => w.classes.name i.cls
  | none => ((w.content? h).getD .absent).typeName

def ancestors (h : Handle) : List ClassId :=
  match w.instance? h with
  | some i => w.classes.ancestors i.cls
  | none => [ClassId.objectClass]

def isInstance (h : Handle) (c : ClassId) : Bool :=
  (w.ancestors h).contains c

def owner? (h : Handle) (m : Method) : Option ClassId :=
  (w.instance? h).bind fun i => w.classes.owner? i.cls m

def field? (h : Handle) (name : String) : Option Handle :=
  (w.instance? h).bind fun i => i.fields.lookup name

/-- The class whose method is called by name. A field in its place is no method. -/
def method (h : Handle) (m : Method) : Except Fault ClassId :=
  if (m.name?.bind (w.field? h)).isSome then .error .operandTypes
  else
    match w.owner? h m with
    | some owner => .ok owner
    | none => .error .noField

/-- The options that an object carries: its own, or the exact ones that its class provides. -/
def optionsOf (h : Handle) : Except Fault Handle :=
  match w.field? h "options" with
  | some o => .ok o
  | none => if (w.owner? h .defaultOptions).isSome then .ok exactOptions else .error .noField

/-- The options of the accelerated method that an object is. One that was made in another way has
the initial ones. -/
def fistaOptions? (h : Handle) : Option FistaOptions :=
  match w.instance? h with
  | some { body := .fista o, .. } => some o
  | some i => if w.classes.isSubclass i.cls .fistaArgmin then some defaultFista else none
  | none => none

def recordText (h : Handle) (fields : List (String × String)) : String :=
  let field : String × String → String := fun (name, text) => name ++ "=" ++ text
  w.typeName h ++ "(" ++ ", ".intercalate (fields.map field) ++ ")"

def optionText (o : FistaOptions) (f : Configuration.Field) : String :=
  Value.written <| match f with
    | .lipschitz => o.lipschitz
    | .accelerated => o.accelerated
    | .resetCounter => o.resetCounter
    | .iterations => o.iterations
    | .verbose => o.verbose
    | .history => (o.history.bind fun c => w.memory.cells[c.index]?).getD .absent

/-- The text of an object: records show their fields, others the name of their class. A record
holds only objects that were made before it, so that their number bounds the depth. -/
def textWithin (depth : Nat) (h : Handle) : String :=
  match depth, w.content? h with
  | _, some v => v.written
  | 0, none => "<" ++ w.typeName h ++ ">"
  | depth + 1, none =>
    let held (name : String) : String × String :=
      (name, textWithin depth ((w.field? h name).getD exactOptions))
    match w.owner? h .writing with
    | some .exactArgmin => w.recordText h []
    | some .fistaArgmin =>
      let o := (w.fistaOptions? h).getD defaultFista
      w.recordText h (Configuration.Field.all.map fun f => (f.name, w.optionText o f))
    | some .composite => w.recordText h (["diff", "prox", "options"].map held)
    | _ => "<" ++ w.typeName h ++ ">"

def shown (h : Handle) : Value :=
  match w.content? h with
  | some v => v
  | none => .other (w.typeName h) (w.textWithin w.objects.size h)

def refOf (h : Handle) : Ref Value :=
  match h with
  | .data c => .cell c
  | .object _ => .const (w.shown h)

def fieldRef (h : Handle) (name : String) : Action Value (Ref Value) :=
  match w.field? h name with
  | some f => pure (w.refOf f)
  | none => throw .noField

def isAbsent (h : Handle) : Bool :=
  (w.content? h).any Value.isAbsent

/-- Whether two handles stand for one object: the same cell or instance, or equal values of which
there is only one. -/
def isSame (a b : Handle) : Bool :=
  a == b ||
    match w.content? a, w.content? b with
    | some .absent, some .absent => true
    | some (.bool p), some (.bool q) => p == q
    | some (.int i), some (.int j) => i == j && -5 ≤ i && i ≤ 256
    | _, _ => false

def namesOf (h : Handle) : List String :=
  (w.bindings.filter fun v => w.isSame v.2 h).map (·.1)

/-- The first variable that stands for an object, or the name of its class in angle brackets. -/
def nameOf (h : Handle) : String :=
  (w.namesOf h).headD ("<" ++ w.typeName h ++ ">")

end World

end ProxGrad.Session
