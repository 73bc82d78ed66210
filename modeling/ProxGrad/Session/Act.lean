import ProxGrad.Session.Step

/-!
# Actions of a session

Computations on the world of a session, and the looking up of operands, classes and operators.
Values among the operands become new objects.
-/

set_option autoImplicit false

namespace ProxGrad.Session

/-- A computation on the world that may fail; what it changed before failing stays. -/
abbrev Act : Type → Type :=
  ExceptT Fault (StateM World)

namespace Act

def world : Act World :=
  ExceptT.lift get

def modifyWorld (f : World → World) : Act Unit :=
  ExceptT.lift (modify f)

def lift {α : Type} (r : Except Fault α) : Act α :=
  ExceptT.mk (pure r)

def onMemory {α : Type} (f : World → Action Value α) : Act α :=
  ExceptT.mk fun w =>
    let (result, memory) := (f w).run w.memory
    (result, { w with memory })

def newData (v : Value) : Act Handle := do
  return .data (← onMemory fun _ => Action.allocate v)

def newInstance (i : Instance) : Act Handle := do
  let index := (← world).objects.size
  modifyWorld fun w => { w with objects := w.objects.push i }
  return .object index

def operand : Operand → Act Handle
  | .value v => newData v
  | .named name => do
    match (← world).bindings.find? fun v => v.1 == name with
    | some (_, h) => return h
    | none => throw .unknownName

def optional : Option Operand → Act Handle
  | some o => operand o
  | none => newData .absent

def operandValue (o : Operand) : Act Value := do
  let h ← operand o
  return (← world).shown h

def optionalValue (initial : Value) : Option Operand → Act Value
  | some o => operandValue o
  | none => pure initial

def given (o : Operand) : Act (Option Handle) := do
  let h ← operand o
  return if (← world).isAbsent h then none else some h

/-- The cell of an object; an instance has none and gets one that nothing can be stored into. -/
def cellOf (h : Handle) : Act Cell := do
  match h with
  | .data c => return c
  | .object _ => onMemory fun w => Action.allocate (w.shown h)

def destination (o : Operand) : Act (Option Cell) := do
  match ← given o with
  | some h => return some (← cellOf h)
  | none => return none

def classNamed (name : String) : Act ClassId := do
  match (← world).classes.ofName? name with
  | some c => return c
  | none => throw .unknownName

def operatorNamed (name : String) : Act Operator := do
  match Operator.ofName? name with
  | some o => return o
  | none => throw .unknownName

end Act

end ProxGrad.Session
