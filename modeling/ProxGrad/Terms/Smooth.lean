import ProxGrad.Solver.Term

/-!
# Smooth terms

Differentiable terms with a closed form. Each stores its gradient before it computes its value.
-/

set_option autoImplicit false

namespace ProxGrad.Terms

open Calculus

variable {V : Type} [Calculus V]

def oneHalf : V := ofDecimal 5 (-1)

/-- Half the squared distance `½ ‖x - y‖²` from a point. -/
def squaredDistance (y : Ref V) : SmoothTerm V :=
  .ofValueAndGradient fun x out => do
    let x ← Action.readRef x
    let r ← Action.lift (sub x (← Action.readRef y))
    Action.store out r
    Action.lift (do mul oneHalf (← inner r r))

def diagonal (d : Ref V) : SmoothTerm V :=
  .ofValueAndGradient fun x out => do
    let d ← Action.readRef d
    Action.store out (← Action.lift (mul d (← Action.readRef x)))
    let point ← Action.readRef x
    Action.lift (do mul oneHalf (← literal (← sum (← mul (← mul d point) point))))

def cubic (c : Ref V) : SmoothTerm V :=
  .ofValueAndGradient fun x out => do
    let c ← Action.readRef c
    let point ← Action.readRef x
    Action.store out (← Action.lift (do mul (← mul (← mul (ofDecimal 3 0) c) point) point))
    let point ← Action.readRef x
    Action.lift (do literal (← sum (← mul (← mul (← mul c point) point) point)))

/-- The squared length `Σ x²` with the gradient `factor · x`, which is right for the factor two. -/
def scaledGradient (factor : Ref V) : SmoothTerm V :=
  .ofValueAndGradient fun x out => do
    let factor ← Action.readRef factor
    Action.store out (← Action.lift (mul factor (← Action.readRef x)))
    let point ← Action.readRef x
    Action.lift (do literal (← sum (← mul point point)))

def total : SmoothTerm V :=
  .ofValueAndGradient fun x out => do
    Action.store out (ofDecimal 1 0)
    let point ← Action.readRef x
    Action.lift (do literal (← sum point))

end ProxGrad.Terms
