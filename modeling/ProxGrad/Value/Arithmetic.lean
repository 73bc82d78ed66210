import ProxGrad.Value.Operands
import ProxGrad.Calculus

/-!
# Arithmetic of values

Two literals are combined as literals. As soon as an array or a number with an element type takes
part, the operation is the entrywise one, and a literal adapts to the other operand's element type.
-/

set_option autoImplicit false

namespace ProxGrad

namespace Value

def isSequence : Value → Bool
  | .list _ | .tuple _ | .text _ => true
  | _ => false

/-- Whether one of two values is a number with an element type and the other a sequence, so that
their product is a repetition. -/
def isRepetition (a b : Value) : Bool :=
  match a, b with
  | .scalar .., v | v, .scalar .. => v.isSequence
  | _, _ => false

def arithmetic (op : Scalar.Op) (a b : Value) : Except Fault Value := do
  if op = .mul && isRepetition a b then
    match Scalar.repetition? a.toEntry b.toEntry with
    | some x => return ofEntry x
    | none => throw .operandTypes
  else if a.hasEntries || b.hasEntries then
    let (x, y) ← operandPair a b
    return ofResult (← NDArray.binary op x y)
  else return ofEntry (← Scalar.applyLiteral op a.toEntry b.toEntry)

def entrywise (op : Scalar.Op) (a b : Value) : Except Fault Value := do
  let (x, y) ← operandPair a b
  return ofResult (← NDArray.binary op x y)

def square (v : Value) : Except Fault Value :=
  match v with
  | .scalar d x => (NDArray.square (.ofScalar d x)).map ofResult
  | .array a => a.square.map ofResult
  | v => (Scalar.squareLiteral v.toEntry).map ofEntry

/-- The square root of a value, taken in the floating type that its entries call for. -/
def squareRoot (v : Value) : Except Fault Value := do
  return ofResult (← (← v.toArray none).sqrt)

def magnitude : Value → Except Fault Value
  | .scalar d x => (NDArray.abs (.ofScalar d x)).map ofResult
  | .array a => a.abs.map ofResult
  | v => (Scalar.absLiteral v.toEntry).map ofEntry

/-- A value as a double-precision literal. Of a complex number with an element type it is the real
part; a complex literal, an absent value, a sequence, and an array with sides have none. -/
def toLiteral (v : Value) : Except Fault Binary :=
  match v with
  | .scalar d x => literalOf (Scalar.convert .float64 d x)
  | .array ⟨d, ⟨[], [x], _⟩⟩ =>
    if d.isComplex then .error .operandTypes else literalOf (Scalar.convert .float64 d x)
  | .array _ | .absent | .list _ | .tuple _ => .error .operandTypes
  | v => literalOf (Scalar.realOfValue .double v.toEntry)
where
  literalOf : Except Fault Scalar → Except Fault Binary
    | .ok (.real r) => .ok r
    | .ok _ => .error .operandTypes
    | .error fault => .error fault

def realPart : Value → Except Fault Value
  | .complex re _ => .ok (.real re)
  | .scalar (.complex p) (.complex re _) => .ok (.scalar (.real p) (.real re))
  | .scalar d x => .ok (.scalar d x)
  | .bool b => .ok (.int b.toNat)
  | .int i => .ok (.int i)
  | .real x => .ok (.real x)
  | .fraction num den => .ok (.fraction num den)
  | .decimal d => .ok (.decimal d)
  | _ => .error .noField

def storeItems (a : NDArray) (items : Value) : NDArray × Except Fault Unit :=
  let outline := outlineAt 0 { Outline.empty with most := a.shape.length } items
  let sides := outline.sides.take outline.most
  if outline.ragged then (a, .error (.conversion .sequence))
  else if sides = a.shape then a.overwritten (entryAs a.dtype) items.leaves
  else
    match entriesUnder a.dtype sides items with
    | .error fault => (a, .error fault)
    | .ok entries =>
      match Tensor.ofShape? sides entries with
      | some data => a.store ⟨a.dtype, data⟩
      | none => (a, .error .shapes)

/-- The destination after a store. Only an array takes one; a mapping takes any and shows none. -/
def store (destination source : Value) : Value × Except Fault Unit :=
  match destination with
  | .array a =>
    let (a, result) := match source with
      | .array b => a.store b
      | .scalar d x => a.store (.ofScalar d x)
      | .list _ | .tuple _ => storeItems a source
      | v =>
        match entryAs a.dtype v with
        | .ok x => a.store (.ofScalar a.dtype x)
        | .error fault => (a, .error fault)
    (.array a, result)
  | .dict fields => (.dict fields, .ok ())
  | v => (v, .error .operandTypes)

def setEntry (destination : Value) (i : Nat) (source : Value) : Except Fault Value := do
  match destination with
  | .array a =>
    if a.size ≤ i then throw .index
    return .array ⟨a.dtype, a.data.set i (← entryAs a.dtype source)⟩
  | _ => throw .operandTypes

def realScalar (like v : Value) : Except Fault Value := do
  let d ← match like with
    | .array a => pure a.dtype.realPart
    | .scalar d _ => pure d.realPart
    | _ => throw .noField
  match v with
  | .array b => return ofResult (← b.convertTo d)
  | v => return .scalar d (← entryAs d v)

def flatten : Value → Except Fault Value
  | .array a => .ok (.array a.flatten)
  | .scalar d x => .ok (.array (NDArray.ofScalar d x).flatten)
  | _ => .error .noField

def array? : Value → Except Fault NDArray
  | .array a => .ok a
  | .scalar d x => .ok (.ofScalar d x)
  | _ => .error .noField

def pick (length : Nat) (indices : List Nat) (v : Value) : Except Fault Value := do
  let a ← v.toArray none
  if a.shape ≠ [length] then throw .shapes
  return .array ⟨a.dtype, .ofList (indices.map fun i => a.data.entries.getD i (.zero a.dtype))⟩

/-- The real vector with a vector's entries at some indices and zeros elsewhere. -/
def place (length : Nat) (indices : List Nat) (v : Value) : Except Fault Value := do
  let a ← v.toArray none
  if a.shape ≠ [indices.length] then throw .shapes
  let a ← a.convertTo .float64
  let zeros := List.replicate length (Scalar.zero .float64)
  let entries := (indices.zip a.data.entries).foldl (fun xs (i, x) => xs.set i x) zeros
  return .array ⟨.float64, .ofList entries⟩

/-- A product with a matrix, of a vector with as many entries as the matrix has on that side. -/
def product (f : NDArray → NDArray → Except Fault NDArray) (side : Nat) (a v : Value) :
    Except Fault Value := do
  let x ← v.toArray none
  if x.shape ≠ [side] then throw .shapes
  return .array (← f (← a.toArray none) x)

end Value

/-- The rounding instance. -/
instance : Calculus Value where
  ofNat n := .int n
  ofDecimal digits exponent :=
    .real (Binary.ofDecimal .double (digits < 0) digits.natAbs exponent)
  leastNormal := .scalar .float64 (.real (Binary.round .double false 1 (-1022) false))
  add := Value.arithmetic .add
  sub := Value.arithmetic .sub
  mul := Value.arithmetic .mul
  div := Value.arithmetic .div
  maximum := Value.entrywise .maximum
  minimum := Value.entrywise .minimum
  square := Value.square
  sqrt := Value.squareRoot
  abs := Value.magnitude
  sign v := do return Value.ofResult (← (← v.toArray none).sign)
  less := Value.related .less
  atMost := Value.relate .atMost
  entries v := do return .array (← v.toArray none)
  sum v := do return Value.ofResult (← (← v.toArray none).sum)
  literal v := do return .real (← v.toLiteral)
  inner a b := do
    let x ← a.toArray none
    let product := Value.ofResult (← x.inner (← b.toArray none))
    return .real (← (← product.realPart).toLiteral)
  norm v := do return Value.ofResult (← (← v.toArray none).norm)
  isComplex
    | .array a => a.dtype.isComplex
    | .scalar d _ => d.isComplex
    | .complex .. => true
    | _ => false
  rotate v := Value.arithmetic .mul (.complex .zero (Binary.ofInt .double 1)) v
  requireFloating name v := do
    let a ← v.array?
    if !a.dtype.isInexact then throw (.invalidArray name (.notFloating a.dtype.name))
  finite? name v := do return (← v.finiteArray? name).map Value.array
  fresh v := do return .array (← v.toArray none).zerosLike
  store := Value.store
  setEntry := Value.setEntry
  realScalar := Value.realScalar
  flatten := Value.flatten
  matVec
    | .dense, rows, columns => Value.product (NDArray.matVec rows columns) columns
    | .sparse, rows, columns => Value.product (NDArray.storedVec rows columns) columns
  adjointVec
    | .dense, rows, columns => Value.product (NDArray.adjointVec rows columns) rows
    | .sparse, rows, columns => Value.product (NDArray.storedAdjointVec rows columns) rows
  pick := Value.pick
  place := Value.place

end ProxGrad
