import ProxGrad.Terms.Smooth

/-!
# Proximal terms

The proximal maps with a closed form, and the projection onto a box. Each is computed from the whole
point before anything is stored, so that the destination may be the point itself.
-/

set_option autoImplicit false

namespace ProxGrad.Terms

open Calculus

variable {V : Type} [Calculus V]

/-- The soft threshold `sign y · max (|y| - step · weight, 0)`. -/
def softThreshold (y step weight : V) : Except Fault V := do
  let direction ← sign y
  let size ← abs y
  mul direction (← maximum (← sub size (← mul step weight)) (ofDecimal 0 0))

/-- Stores the proximal map of the weighted sum of magnitudes. -/
def proxL1 (weight : Ref V) (y : Ref V) (step : V) (out : Cell) : Action V Unit := do
  let y ← Action.lift (entries (← Action.readRef y))
  let weight ← Action.readRef weight
  Action.store out (← Action.lift (softThreshold y step weight))

def valueL1 (weight : Ref V) (x : Ref V) : Action V V := do
  let x ← Action.readRef x
  let weight ← Action.readRef weight
  Action.lift (do mul weight (← literal (← sum (← abs (← entries x)))))

/-- Stores the proximal map of the weighted half of the squared length. -/
def proxRidge (weight : Ref V) (y : Ref V) (step : V) (out : Cell) : Action V Unit := do
  let y ← Action.lift (entries (← Action.readRef y))
  let weight ← Action.readRef weight
  Action.store out (← Action.lift (do div y (← add (ofDecimal 1 0) (← mul step weight))))

def valueRidge (weight : Ref V) (x : Ref V) : Action V V := do
  let x ← Action.readRef x
  let weight ← Action.readRef weight
  Action.lift (do mul (← mul oneHalf weight) (← literal (← sum (← mul x x))))

/-- Stores the projection onto the points without negative entries. -/
def proxNonNegative (y : Ref V) (out : Cell) : Action V Unit := do
  let y ← Action.lift (entries (← Action.readRef y))
  Action.store out (← Action.lift (maximum y (ofDecimal 0 0)))

/-- Stores the projection onto the box between two bounds. -/
def projectBox (lower upper : Ref V) (y : Ref V) (out : Cell) : Action V Unit := do
  let y ← Action.lift (entries (← Action.readRef y))
  let above ← Action.lift (maximum y (← Action.readRef lower))
  Action.store out (← Action.lift (minimum above (← Action.readRef upper)))

def valueTotal (x : Ref V) : Action V V := do
  let x ← Action.readRef x
  Action.lift (do literal (← sum x))

end ProxGrad.Terms
