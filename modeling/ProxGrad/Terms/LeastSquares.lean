import ProxGrad.Terms.Smooth

/-!
# The least-squares misfit

The term `f x = ½ ‖A x - y‖²` with gradient `Aᴴ (A x - y)`. The operator acts on flat vectors; the
point keeps its own shape, to which the gradient is brought back.
-/

set_option autoImplicit false

namespace ProxGrad

open Calculus

/-- A linear map between flat vectors, with its adjoint. -/
structure LinearOperator (V : Type) where
  rows : Nat
  columns : Nat
  apply : V → Action V V
  adjoint : V → Action V V

namespace LinearOperator

variable {V : Type} [Calculus V]

/-- The operator of a matrix, which is read whenever the operator is applied. -/
def ofMatrix (storage : Storage) (rows columns : Nat) (matrix : Ref V) : LinearOperator V where
  rows := rows
  columns := columns
  apply v := do Action.lift (matVec storage rows columns (← Action.readRef matrix) v)
  adjoint v := do Action.lift (adjointVec storage rows columns (← Action.readRef matrix) v)

/-- The operator of a matrix that is known in one direction only. -/
def withoutAdjoint (rows columns : Nat) (matrix : Ref V) : LinearOperator V :=
  { ofMatrix .dense rows columns matrix with adjoint := fun _ => throw .noAdjoint }

/-- The indices of the pixels in every other row and column of an image. -/
def everyOther (height width : Nat) : List Nat :=
  (List.range ((height + 1) / 2)).flatMap fun i =>
    (List.range ((width + 1) / 2)).map fun j => 2 * i * width + 2 * j

/-- The operator that keeps every other row and column of an image. -/
def subsample (height width : Nat) : LinearOperator V :=
  let kept := everyOther height width
  { rows := kept.length
    columns := height * width
    apply := fun v => Action.lift (pick (height * width) kept v)
    adjoint := fun v => Action.lift (place (height * width) kept v) }

end LinearOperator

/-- The data of a least-squares misfit. -/
structure LeastSquares (V : Type) where
  operator : LinearOperator V
  observed : Ref V
  shaped : V → Except Fault V

namespace LeastSquares

variable {V : Type} [Calculus V]

def residual (f : LeastSquares V) (x : Ref V) : Action V V := do
  let flat ← Action.lift (flatten (← Action.readRef x))
  let image ← f.operator.apply flat
  let observed ← Action.lift (flatten (← Action.readRef f.observed))
  Action.lift (sub image observed)

def misfit (r : V) : Except Fault V := do
  mul Terms.oneHalf (← inner r r)

/-- Stores the gradient that belongs to a residual. -/
def storeGradient (f : LeastSquares V) (r : V) (out : Cell) : Action V Unit := do
  let g ← f.operator.adjoint r
  Action.store out (← Action.lift (f.shaped g))

def term (f : LeastSquares V) : SmoothTerm V where
  valueAndGradient x out := do
    let r ← f.residual x
    f.storeGradient r out
    Action.lift (misfit r)
  gradient x out := do f.storeGradient (← f.residual x) out
  value x := do
    let r ← f.residual x
    Action.lift (misfit r)

end LeastSquares

end ProxGrad
