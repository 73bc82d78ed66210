import ProxGrad.Calculus

/-!
# Momentum

The sequence of momentum scalars `t ↦ (1 + √(1 + 4 t²)) / 2` of the accelerated method.
-/

set_option autoImplicit false

namespace ProxGrad

open Calculus

variable {V : Type} [Calculus V]

def momentum (t : V) : Except Fault V := do
  let root ← sqrt (← add (ofNat 1) (← mul (ofNat 4) (← square t)))
  div (← add (ofNat 1) root) (ofNat 2)

def momenta : Nat → V → Except Fault (List V)
  | 0, _ => .ok []
  | n + 1, t => do
    let next ← momentum t
    return next :: (← momenta n next)

end ProxGrad
