import ProxGrad.Fault

/-!
# Calculus

The operations that the solver, the terms and the analyses use, on one carrier of numbers, vectors
and images. The algorithms of this library are written once over this interface. On the values of
the rounding instance an operation can fail, and its result depends on element types; on an exact
instance the same algorithms are statements of analysis.
-/

set_option autoImplicit false

namespace ProxGrad

/-- How a matrix is kept: with all entries, or with those that are not zero. -/
inductive Storage where
  | dense
  | sparse
deriving DecidableEq, Repr

/-- The operations on one carrier of numbers and arrays of numbers. -/
class Calculus (V : Type) where
  ofNat : Nat → V
  ofDecimal : Int → Int → V
  leastNormal : V
  add : V → V → Except Fault V
  sub : V → V → Except Fault V
  mul : V → V → Except Fault V
  div : V → V → Except Fault V
  maximum : V → V → Except Fault V
  minimum : V → V → Except Fault V
  square : V → Except Fault V
  sqrt : V → Except Fault V
  abs : V → Except Fault V
  /-- The entrywise sign, `z / |z|` for complex entries. -/
  sign : V → Except Fault V
  less : V → V → Except Fault Bool
  /-- Whether one number is at most another, entry by entry, as a truth value of the carrier. -/
  atMost : V → V → Except Fault V
  entries : V → Except Fault V
  sum : V → Except Fault V
  literal : V → Except Fault V
  /-- The real part of the inner product, the first factor conjugated, as a literal. -/
  inner : V → V → Except Fault V
  norm : V → Except Fault V
  isComplex : V → Bool
  rotate : V → Except Fault V
  /-- Fails unless the value is an array with floating entries. -/
  requireFloating : String → V → Except Fault Unit
  /-- A value accepted as a finite floating array: nothing if it is one, or its converted form. -/
  finite? : String → V → Except Fault (Option V)
  /-- An array of the same shape and element type, filled with zeros. -/
  fresh : V → Except Fault V
  /-- The destination, its first argument, after the source was stored into it. A store that fails
  may have changed a part of it. -/
  store : V → V → V × Except Fault Unit
  /-- The destination after a number was stored at an index. -/
  setEntry : V → Nat → V → Except Fault V
  /-- A number in the real element type of an array, the first argument. -/
  realScalar : V → V → Except Fault V
  flatten : V → Except Fault V
  /-- The product of a matrix of these dimensions with a vector. -/
  matVec : Storage → Nat → Nat → V → V → Except Fault V
  /-- The product of its conjugate transpose with a vector. -/
  adjointVec : Storage → Nat → Nat → V → V → Except Fault V
  /-- The entries of a vector of this length at these indices. -/
  pick : Nat → List Nat → V → Except Fault V
  /-- The real vector of this length with a vector's entries at these indices, zeros elsewhere. -/
  place : Nat → List Nat → V → Except Fault V

end ProxGrad
