import ProxGrad.Options.Fista
import ProxGrad.Value.Arithmetic

/-!
# Configurations

A configuration names options by field. It is made from a mapping by strict rules: no text is read
as a number, no number as a truth value, and no field is unknown. All fields that are not accepted
are reported together.
-/

set_option autoImplicit false

namespace ProxGrad

/-- The fields of a configuration, in the order of reports. -/
inductive Configuration.Field where
  | lipschitz
  | accelerated
  | resetCounter
  | iterations
  | verbose
  | history
deriving DecidableEq, Repr

namespace Configuration.Field

def all : List Field :=
  [.lipschitz, .accelerated, .resetCounter, .iterations, .verbose, .history]

def name : Field → String
  | .lipschitz => "lipschitz_constant"
  | .accelerated => "nesterov"
  | .resetCounter => "reset_counter"
  | .iterations => "niter"
  | .verbose => "verbose"
  | .history => "fun_history"

def initial : Field → Value
  | .lipschitz | .resetCounter | .iterations => .absent
  | .accelerated => .bool true
  | .verbose | .history => .bool false

/-- A positive real number that is no truth value, as a real literal, or nothing. -/
def acceptReal (v : Value) : Except FieldDefect Value :=
  match v with
  | .absent => .ok .absent
  | .bool _ | .text _ | .complex .. => .error .notNumber
  | v =>
    match v.toLiteral with
    | .ok x => if Binary.lt .zero x then .ok (.real x) else .error .notPositive
    | .error _ => .error .notNumber

def acceptCount (least : Int) (below : FieldDefect) : Value → Except FieldDefect Value
  | .absent => .ok .absent
  | .int n => if least ≤ n then .ok (.int n) else .error below
  | _ => .error .notInteger

def acceptFlag : Value → Except FieldDefect Value
  | .bool b => .ok (.bool b)
  | _ => .error .notBoolean

def accept : Field → Value → Except FieldDefect Value
  | .lipschitz => acceptReal
  | .resetCounter => acceptCount 1 .notPositive
  | .iterations => acceptCount 0 .negative
  | .accelerated | .verbose | .history => acceptFlag

end Configuration.Field

/-- A value for every field. -/
structure Configuration where
  get : Configuration.Field → Value

namespace Configuration

/-- An entry of a mapping. A key that is no text has no name. -/
abbrev Entry := Option String × Value

def Field.read (data : List Entry) (field : Field) : Except FieldDefect Value :=
  match data.lookup (some field.name) with
  | some v => field.accept v
  | none => .ok field.initial

def isField (key : Option String) : Bool :=
  Field.all.any fun field => some field.name == key

/-- What is wrong with a key that names no field. A key without a name is no defect of a field. -/
def keyDefect (key : Option String) : Option String × FieldDefect :=
  (key, if key.isSome then .unknown else .brokenKey)

/-- The fields that are not accepted, in their order, then the keys that name none in theirs. -/
def defects (data : List Entry) : List (Option String × FieldDefect) :=
  (Field.all.filterMap fun field =>
    match field.read data with
    | .ok _ => none
    | .error defect => some (some field.name, defect)) ++
  (data.filterMap fun (key, _) => if isField key then none else some (keyDefect key))

def ofEntries (data : List Entry) : Except Fault Configuration :=
  match defects data with
  | [] => .ok ⟨fun field =>
      match field.read data with
      | .ok v => v
      | .error _ => field.initial⟩
  | ds => .error (.configuration ds)

def ofFields (data : List (String × Value)) : Except Fault Configuration :=
  ofEntries (data.map fun (key, v) => (some key, v))

/-- The names that a configuration has besides its fields and that cannot be set. -/
def fixedNames : List String :=
  ["model_extra", "model_fields_set", "__fields_set__", "__weakref__"]

/-- The configuration with the fields of a mapping in the place of its own, which has to have all of
them. -/
def replaced (fields : List (String × Value)) : Except Fault Configuration :=
  if Field.all.all fun field => (fields.lookup field.name).isSome then
    .ok ⟨fun field => (fields.lookup field.name).getD field.initial⟩
  else .error .noField

/-- Sets a field without a check of its value. Other names are set only where they are private, and
then nothing shows it. -/
def assign (c : Configuration) (key : String) (v : Value) : Except Fault Configuration :=
  match Field.all.find? fun field => field.name == key with
  | some field => .ok ⟨fun other => if other = field then v else c.get other⟩
  | none =>
    if fixedNames.contains key then .error .noField
    else if key == "__class__" then .error .operandTypes
    else if key == "__dict__" then
      match v with
      | .dict fields => replaced fields
      | _ => .error .operandTypes
    else if key.startsWith "_" then .ok c
    else .error .unknownField

def toOptions (space : Option Nat) (c : Configuration) : Action Value FistaOptions :=
  FistaOptions.build space (c.get .lipschitz) (c.get .accelerated) (c.get .resetCounter)
    (c.get .iterations) (c.get .verbose) (c.get .history)

end Configuration

end ProxGrad
