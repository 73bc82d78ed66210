import ProxGrad.Options.Fista
import ProxGrad.Solver.Term
import ProxGrad.Value.Arithmetic

/-!
# Implementations that the caller supplies

A caller may register implementations of the operators. One is called in either of two ways: to
store the image of a point into a destination, or to minimize a function in place. It is handed what
the call is about, and may do with that whatever an action can do: read arrays and store into them,
allocate new ones, and fail. It does not change objects and does not call operators itself. Affine
maps are an example of such implementations.
-/

set_option autoImplicit false

namespace ProxGrad.Session

open Calculus

/-- What an implementation gives back besides the content of its destination. -/
inductive Result where
  | cell (c : Cell)
  | nothing

/-- What an operator hands to an implementation that stores the image of a point: the names of the
classes of the function and of the options, the fields of the function, the parameters of the
options if they have any, and the other arguments. -/
structure ImageRequest where
  functionType : String
  optionsType : String
  field? : String → Option (Ref Value)
  parameters? : Option FistaOptions
  point : Ref Value
  step : Option Value
  out : Cell

/-- What an operator hands to an implementation that minimizes a function in place: the terms if the
function is a composite, and the parameters of the options if they have any. -/
structure MinimizationRequest where
  functionType : String
  optionsType : String
  objective : Except Fault (Objective Value)
  parameters? : Option FistaOptions
  x : Cell

/-- An operator implementation that the caller supplies. -/
structure Supplied where
  name : String
  storeImage : ImageRequest → Action Value Result
  minimizeInPlace : MinimizationRequest → Action Value Result

/-! ## Affine maps -/

/-- What an affine map returns. -/
inductive Returned where
  | destination
  | nothing
  | copy
deriving DecidableEq, Repr

/-- An implementation that stores `scale · y + offset`, of a point or of the array that it
minimizes in. -/
structure Affine where
  name : String
  scale : Value
  offset : Value
  returned : Returned
  fails : Bool

namespace Affine

def run (i : Affine) (functionType optionsType : String) (point : Ref Value) (step : Option Value)
    (out : Cell) : Action Value Result := do
  Action.record (.implementation i.name functionType optionsType step)
  if i.fails then throw (.term (.implementation i.name))
  let y ← Action.lift (entries (← Action.readRef point))
  Action.store out (← Action.lift (do add (← mul y i.scale) i.offset))
  match i.returned with
  | .destination => return .cell out
  | .nothing => return .nothing
  | .copy => return .cell (← Action.allocate (← Action.read out))

def supplied (i : Affine) : Supplied where
  name := i.name
  storeImage r := i.run r.functionType r.optionsType r.point r.step r.out
  minimizeInPlace r := i.run r.functionType r.optionsType (.cell r.x) none r.x

end Affine

end ProxGrad.Session
