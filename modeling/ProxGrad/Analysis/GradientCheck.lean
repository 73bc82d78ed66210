import ProxGrad.Terms.Smooth

/-!
# Gradient check

The relative error between the directional derivative that a term's gradient claims and the central
difference of its values. Without a given direction one is drawn and scaled to the length of the
point.
-/

set_option autoImplicit false

namespace ProxGrad.GradientCheck

open Calculus

variable {V : Type} [Calculus V]

def accept (name : String) (x : Ref V) : Action V (Ref V) := do
  match ← Action.lift (finite? name (← Action.readRef x)) with
  | none => return x
  | some converted => return .const converted

/-- A drawn direction with the length of the point, or of length one where the point is zero. -/
def scaled (direction point : V) : Except Fault V := do
  let length ← norm point
  let target := if ← less (ofDecimal 0 0) length then length else ofDecimal 1 0
  mul direction (← div target (← norm direction))

def larger (a b : V) : Except Fault V := do
  return if ← less a b then b else a

def relativeError (difference claimed : V) : Except Fault V := do
  div (← abs (← sub difference claimed)) (← larger (← abs claimed) leastNormal)

/-- The relative error of a term's gradient at a point. The direction is given, or drawn with
`draw` once the point is accepted. -/
def error (f : SmoothTerm V) (x : Ref V) (step : V) (direction : Option (Ref V))
    (draw : V → Action V V) : Action V V := do
  let x ← accept "x" x
  let direction ← match direction with
    | some d => accept "direction" d
    | none => do
      let point ← Action.readRef x
      let d ← draw point
      accept "direction" (.const (← Action.lift (scaled d point)))
  let gradient ← Action.freshLike x
  f.gradient x gradient
  let d ← Action.readRef direction
  let claimed ← Action.lift (inner (← Action.read gradient) d)
  let point ← Action.readRef x
  let ahead ← f.value (.const (← Action.lift (do add point (← mul step d))))
  let behind ← f.value (.const (← Action.lift (do sub point (← mul step d))))
  let difference ← Action.lift (do div (← sub ahead behind) (← mul (ofNat 2) step))
  Action.lift (relativeError difference claimed)

/-- Whether a term's gradient agrees with differences of its values to a tolerance. -/
def agrees (f : SmoothTerm V) (x : Ref V) (step tolerance : V) (direction : Option (Ref V))
    (draw : V → Action V V) : Action V V := do
  let e ← error f x step direction draw
  Action.lift (atMost e tolerance)

end ProxGrad.GradientCheck
