import ProxGrad.Numeric.Bytes
import ProxGrad.Session.Act

/-!
# Fields of a session's objects

Assignment to a field by its name. An instance takes every field that no record in its class keeps
unchanged; an array has a few that rearrange it or store into it, and other data has none.
-/

set_option autoImplicit false

namespace ProxGrad.Session

/-! ## Arrays -/

def withShape (a : NDArray) (v : Value) : Except Fault NDArray := do
  let sides ← if v.isAbsent then .ok [] else sidesOf v
  a.reshape (← closedSides a.size sides)

def withElementType (a : NDArray) (v : Value) : Except Fault NDArray :=
  match v with
  | .absent => a.view .float64
  | .text name =>
    match DType.ofText? name with
    | some d => a.view d
    | none => .error .operandTypes
  | _ => .error .operandTypes

def withEntries (a : NDArray) (v : Value) : Except Fault NDArray := do
  let source := (← v.toArray (some a.dtype)).data.entries
  if source.isEmpty then return a
  let entries := (List.range a.size).map fun i => source.getD (i % source.length) (.zero a.dtype)
  match Tensor.ofShape? a.shape entries with
  | some data => return ⟨a.dtype, data⟩
  | none => throw .shapes

def partsOf (imaginary : Bool) (a : NDArray) : NDArray :=
  ⟨a.dtype.realPart, a.data.map fun x => match x with
    | .complex re im => .real (if imaginary then im else re)
    | x => x⟩

def withParts (imaginary : Bool) (a parts : NDArray) : NDArray :=
  let join (x part : Scalar) : Scalar :=
    match x, part with
    | .complex re im, .real p => if imaginary then .complex re p else .complex p im
    | x, _ => x
  match a.data.zipWith? join parts.data with
  | some data => ⟨a.dtype, data⟩
  | none => a

def storeParts (imaginary : Bool) (a : NDArray) (v : Value) : NDArray × Except Fault Unit :=
  if a.dtype.isComplex then
    match Value.store (.array (partsOf imaginary a)) v with
    | (.array parts, result) => (withParts imaginary a parts, result)
    | (_, result) => (a, result)
  else if imaginary then (a, .error .operandTypes)
  else
    match Value.store (.array a) v with
    | (.array b, result) => (b, result)
    | (_, result) => (a, result)

def setArrayField (a : NDArray) (field : String) (v : Value) : NDArray × Except Fault Unit :=
  let changed (r : Except Fault NDArray) : NDArray × Except Fault Unit :=
    match r with
    | .ok b => (b, .ok ())
    | .error fault => (a, .error fault)
  match field with
  | "shape" => changed (withShape a v)
  | "dtype" => changed (withElementType a v)
  | "flat" => changed (withEntries a v)
  | "real" => storeParts false a v
  | "imag" => storeParts true a v
  | "__class__" => (a, .error .operandTypes)
  | _ => (a, .error .noField)

/-! ## Instances -/

open Act

/-- The object that a field holds. A count is kept apart, because counting changes it. -/
def heldObject (field : String) (h : Handle) : Act Handle := do
  match (← world).content? h with
  | some (.array _) | none => return h
  | some v => if field == "calls" then newData v else return h

def setDataField (c : Cell) (field : String) (v : Value) : Act Unit :=
  onMemory fun _ => do
    match ← Action.read c with
    | .array a =>
      let (b, result) := setArrayField a field v
      Action.write c (.array b)
      Action.lift result
    | _ => throw (if field == "__class__" then .operandTypes else .noField)

/-- The fields of an instance with the members of a mapping in the place of all of them. -/
def replaceFields (v : Value) : Act (List (String × Handle)) := do
  match v with
  | .dict fields => fields.mapM fun (name, v) => do return (name, ← newData v)
  | _ => throw .operandTypes

def setField (h : Handle) (field : String) (v : Handle) : Act Unit := do
  match h with
  | .data c => setDataField c field ((← world).shown v)
  | .object index =>
    let w ← world
    let some i := w.objects[index]? | throw .unknownName
    if w.classes.isFrozen i.cls field then throw .frozen
    if field == "__class__" then throw .operandTypes
    let isRecord := w.classes.isSubclass i.cls .fistaArgmin
    if i.cls = .objectClass || field == "__weakref__" || (isRecord && field == "records_history")
      then throw .noField
    let fields ← if field == "__dict__" then replaceFields (w.shown v) else do
      let held ← heldObject field v
      pure ((i.fields.filter fun f => f.1 != field) ++ [(field, held)])
    modifyWorld fun w => { w with objects := w.objects.setIfInBounds index { i with fields } }

end ProxGrad.Session
