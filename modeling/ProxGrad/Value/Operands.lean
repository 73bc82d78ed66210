import ProxGrad.Numeric.Comparison
import ProxGrad.Value.Array

/-!
# Operands of entrywise operations

Two values as two arrays. A literal number has no element type of its own: it takes one from the
array that it meets, so that an array of single precision stays one.
-/

set_option autoImplicit false

namespace ProxGrad.Value

/-- An operand of an entrywise operation: a literal that adapts, or an array. -/
inductive Operand where
  | literal (kind : DType.LiteralKind) (x : Scalar)
  | array (a : NDArray)

def toOperand : Value → Except Fault Operand
  | .int i => .ok (.literal .int (.int i))
  | .real x => .ok (.literal .real (.real x))
  | .complex re im => .ok (.literal .complex (.complex re im))
  | .scalar d x => .ok (.array (.ofScalar d x))
  | v => (v.toArray none).map .array

def adaptLiteral (kind : DType.LiteralKind) (x : Scalar) (d : DType) : Except Fault NDArray := do
  let target := DType.adapt kind d
  return .ofScalar target (← Scalar.ofValue target x)

def operandPair (a b : Value) : Except Fault (NDArray × NDArray) := do
  match ← a.toOperand, ← b.toOperand with
  | .array x, .array y => return (x, y)
  | .literal k s, .array y => return (← adaptLiteral k s y.dtype, y)
  | .array x, .literal k s => return (x, ← adaptLiteral k s x.dtype)
  | .literal .., .literal .. => return (← a.toArray none, ← b.toArray none)

/-- A literal in the type in which it is compared with entries of type `d`: an integer meets
integers as it is, however large. -/
def comparedLiteral (kind : DType.LiteralKind) (x : Scalar) (d : DType) : Except Fault NDArray :=
  if kind = .int && NDArray.isIntegral d then .ok (.ofScalar x.ownType x) else adaptLiteral kind x d

def comparedPair (a b : Value) : Except Fault (NDArray × NDArray) := do
  match ← a.toOperand, ← b.toOperand with
  | .array x, .array y => return (x, y)
  | .literal k s, .array y => return (← comparedLiteral k s y.dtype, y)
  | .array x, .literal k s => return (x, ← comparedLiteral k s x.dtype)
  | .literal .., .literal .. => return (← a.toArray none, ← b.toArray none)

def hasEntries : Value → Bool
  | .scalar .. | .array _ => true
  | _ => false

/-- Whether a relation holds of two values: a truth value for two literals, and entry by entry as
soon as an array or a number with an element type takes part. -/
def relate (r : Relation) (a b : Value) : Except Fault Value := do
  if a.hasEntries || b.hasEntries then
    let (x, y) ← comparedPair a b
    return ofResult (← NDArray.compareWith r x y)
  else return .bool (← Scalar.relatedLiterals r a.toEntry b.toEntry)

def related (r : Relation) (a b : Value) : Except Fault Bool := do
  (← relate r a b).truth?

end ProxGrad.Value
