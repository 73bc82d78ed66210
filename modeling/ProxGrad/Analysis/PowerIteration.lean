import ProxGrad.Terms.LeastSquares

/-!
# Power iteration

An estimate of the largest eigenvalue of `Aᴴ A`, which is the least Lipschitz constant of the
gradient of a least-squares misfit. The estimate is a Rayleigh quotient, so it never exceeds the
eigenvalue; it is kept above a small positive floor.
-/

set_option autoImplicit false

namespace ProxGrad.PowerIteration

open Calculus

variable {V : Type} [Calculus V]

def floor : V := ofDecimal 1 (-12)

def larger (a b : V) : Except Fault V := do
  return if ← less a b then b else a

def normalize (v : V) : Except Fault V := do
  div v (← add (← norm v) floor)

def gram (a : LinearOperator V) (v : V) : Action V V := do
  a.adjoint (← a.apply v)

/-- Whether the estimate has settled: its change is below the tolerance, relative to the last
estimate where that exceeds one. -/
def settled (tolerance estimate last : V) : Except Fault Bool := do
  less (← abs (← sub estimate last)) (← mul tolerance (← larger (ofDecimal 1 0) last))

def steps (a : LinearOperator V) (tolerance : V) : Nat → V → V → Action V V
  | 0, _, last => return last
  | n + 1, v, last => do
    let w ← gram a v
    let v ← Action.lift (normalize w)
    let estimate ← Action.lift (inner v (← gram a v))
    if ← Action.lift (settled tolerance estimate last) then return estimate
    else steps a tolerance n v estimate

/-- The estimate after at most so many steps from a start vector. The number of steps is looked at
after the vector was drawn. -/
def estimate (a : LinearOperator V) (count : Except Fault Nat) (tolerance start : V) :
    Action V V := do
  Action.record (.normal a.columns)
  let v ← Action.lift (normalize start)
  let last ← steps a tolerance (← Action.lift count) v (ofDecimal 0 0)
  Action.lift (larger last floor)

end ProxGrad.PowerIteration
