import ProxGrad.Memory

/-!
# Terms

The two parts of a composite objective as the solver sees them: a smooth term, of which it asks the
gradient and sometimes the value, and a proximal term, of which it asks the proximal map. Both write
their arrays into a cell that the solver provides.
-/

set_option autoImplicit false

namespace ProxGrad

/-- A differentiable term. -/
structure SmoothTerm (V : Type) where
  /-- Writes the gradient at a point into a cell and returns the value there. -/
  valueAndGradient : Ref V → Cell → Action V V
  gradient : Ref V → Cell → Action V Unit
  value : Ref V → Action V V

/-- A term that is known through its proximal map. -/
structure ProximalTerm (V : Type) where
  /-- Writes the proximal map of a point, for a step, into a cell. -/
  prox : Ref V → V → Cell → Action V Unit
  value : Ref V → Action V V

/-- The sum of a smooth and a proximal term. -/
structure Objective (V : Type) where
  smooth : SmoothTerm V
  proximal : ProximalTerm V

namespace SmoothTerm

/-- A term that is called as a function gives its value. -/
def call {V : Type} (f : SmoothTerm V) (x : Ref V) : Action V V :=
  f.value x

variable {V : Type} [Calculus V]

/-- The term given by one function for value and gradient; a value alone is computed with a gradient
that is thrown away. -/
def ofValueAndGradient (f : Ref V → Cell → Action V V) : SmoothTerm V where
  valueAndGradient := f
  gradient x out := do
    let _ ← f x out
  value x := do f x (← Action.freshLike x)

def newGradient (f : SmoothTerm V) (x : Ref V) : Action V Cell := do
  let out ← Action.freshLike x
  f.gradient x out
  return out

end SmoothTerm

def Objective.value {V : Type} [Calculus V] (objective : Objective V) (x : Ref V) :
    Action V V := do
  let f ← objective.smooth.value x
  let g ← objective.proximal.value x
  Action.lift (Calculus.add f g)

end ProxGrad
