import ProxGrad.Solver.Momentum
import ProxGrad.Solver.Term

/-!
# The accelerated proximal gradient method

`Fista.minimize` runs the fast iterative shrinkage-thresholding algorithm in place: each iteration
takes a gradient step of length `1 / L`, applies the proximal map, and extrapolates by the momentum
scalars. The number of iterations is fixed; there is no test of convergence and no search for a
step. The state after `n` iterations is `Fista.afterIterations … n`, so that a run of `n + 1`
iterations is a run of `n` followed by one `Fista.iteration`.
-/

set_option autoImplicit false

namespace ProxGrad

open Calculus

/-- The parameters of one run. -/
structure Plan (V : Type) where
  lipschitz : Option V
  accelerated : Bool
  /-- The number of accelerated iterations after which the momentum is held at its start. -/
  resetAfter : Option Nat
  iterations : Option Nat
  /-- Whether each iteration is reported with its value. -/
  verbose : Bool
  /-- The array that receives the value of each iteration. -/
  history : Option Cell

/-- Whether a run needs the value of the smooth term. -/
def Plan.observed {V : Type} (plan : Plan V) : Bool :=
  plan.verbose || plan.history.isSome

namespace Fista

variable {V : Type} [Calculus V]

/-- The arrays and scalars that one run fixes at its start. -/
structure Workspace (V : Type) where
  iterate : Cell
  /-- The array into which proximal maps are written: its own if iterates are extrapolated. -/
  proximal : Cell
  gradient : Cell
  /-- The Lipschitz constant in the real element type of the iterate. -/
  lipschitz : V
  start : V

/-- What one iteration hands to the next. -/
structure State (V : Type) where
  momentum : V
  previous : V
  accelerated : Nat

/-- Fails unless the count of iterations and the Lipschitz constant are set and the iterate has
floating entries. -/
def accept (plan : Plan V) (x : V) : Except Fault (Nat × V) := do
  let some iterations := plan.iterations | throw (.unresolved .iterations)
  let some lipschitz := plan.lipschitz | throw (.unresolved .lipschitz)
  requireFloating "x" x
  return (iterations, lipschitz)

/-- Stores the value of iteration `n` into the history, if there is one. -/
def remember (plan : Plan V) (n : Nat) (value : V) : Action V Unit :=
  match plan.history with
  | some history => do
    let values ← Action.read history
    Action.write history (← Action.lift (setEntry values (n - 1) value))
  | none => pure ()

/-- Reports the value of iteration `n`, if the run is verbose. -/
def announce (plan : Plan V) (n : Nat) (value : V) : Action V Unit :=
  if plan.verbose then Action.report n value else pure ()

/-- Evaluates the smooth term at the iterate, with its value where the run is observed. -/
def evaluate (objective : Objective V) (plan : Plan V) (w : Workspace V) (n : Nat) :
    Action V Unit := do
  if plan.observed then
    let value ← objective.smooth.valueAndGradient (.cell w.iterate) w.gradient
    remember plan n value
    announce plan n value
  else
    objective.smooth.gradient (.cell w.iterate) w.gradient

def proximalStep (objective : Objective V) (w : Workspace V) : Action V Unit := do
  let x ← Action.read w.iterate
  let g ← Action.read w.gradient
  let y ← Action.lift (do sub x (← div g w.lipschitz))
  let step ← Action.lift (div (ofNat 1) w.lipschitz)
  objective.proximal.prox (.const y) step w.proximal

/-- The point beyond the proximal point `z`, in the direction from the one before. -/
def extrapolate (momentum next z previous : V) : Except Fault V := do
  add z (← mul (← div (← sub momentum (ofNat 1)) next) (← sub z previous))

/-- The point to which iteration `n` moves the iterate: the proximal point itself in the first one,
the point beyond it later. -/
def moved (n : Nat) (s : State V) (next z : V) : Except Fault V :=
  if n = 1 then .ok z else extrapolate s.momentum next z s.previous

/-- The state after one more accelerated iteration. The momentum is back at its start as soon as
there were as many as the plan allows. -/
def State.advance (s : State V) (plan : Plan V) (w : Workspace V) (next previous : V) : State V :=
  let accelerated := s.accelerated + 1
  let reset := plan.resetAfter.any fun r => r ≤ accelerated
  { momentum := if reset then w.start else next, previous, accelerated }

/-- Moves the iterate to the extrapolated point and updates the momentum. -/
def accelerate (plan : Plan V) (w : Workspace V) (n : Nat) (s : State V) :
    Action V (State V) := do
  let next ← Action.lift (momentum s.momentum)
  let z ← Action.read w.proximal
  Action.store w.iterate (← Action.lift (moved n s next z))
  let (previous, kept) := store s.previous z
  Action.lift kept
  return s.advance plan w next previous

def iteration (objective : Objective V) (plan : Plan V) (w : Workspace V) (n : Nat)
    (s : State V) : Action V (State V) := do
  evaluate objective plan w n
  proximalStep objective w
  if plan.accelerated then accelerate plan w n s else return s

def afterIterations (objective : Objective V) (plan : Plan V) (w : Workspace V) (s : State V) :
    Nat → Action V (State V)
  | 0 => return s
  | n + 1 => do
    let s ← afterIterations objective plan w s n
    iteration objective plan w (n + 1) s

/-- The array for proximal points: the iterate itself unless iterates are extrapolated. -/
def proximalArray (plan : Plan V) (x : Cell) : Action V Cell :=
  if plan.accelerated then Action.freshLike (.cell x) else pure x

/-- The arrays and scalars of a run that starts at the content of a cell. -/
def prepare (plan : Plan V) (x : Cell) (lipschitz : V) : Action V (Workspace V × State V) := do
  let start ← Action.read x
  let proximal ← proximalArray plan x
  let gradient ← Action.freshLike (.cell x)
  let lipschitz ← Action.lift (realScalar start lipschitz)
  let one ← Action.lift (realScalar start (ofNat 1))
  return ({ iterate := x, proximal, gradient, lipschitz, start := one },
    { momentum := one, previous := start, accelerated := 0 })

/-- Accepts a run on a cell and prepares it: the number of its iterations, its workspace and its
first state. -/
def setUp (plan : Plan V) (x : Cell) : Action V (Nat × Workspace V × State V) := do
  let (iterations, lipschitz) ← Action.lift (accept plan (← Action.read x))
  let (workspace, state) ← prepare plan x lipschitz
  return (iterations, workspace, state)

/-- Minimizes an objective in place, from the content of a cell on, and gives that cell back. The
objective is looked up once the run is accepted and prepared. -/
def minimize (objective : Action V (Objective V)) (plan : Plan V) (x : Cell) :
    Action V Cell := do
  let (iterations, workspace, state) ← setUp plan x
  let objective ← objective
  let _ ← afterIterations objective plan workspace state iterations
  return x

/-- The cell of a run from a start that is left as it is: the destination, with the start stored
into it, or a new one with a copy if none is given. -/
def placeStart (start : Ref V) (out : Option Cell) : Action V Cell := do
  let start ← Action.readRef start
  let start := (← Action.lift (finite? "initial_estimate" start)).getD start
  match out with
  | some c => do
    Action.store c start
    pure c
  | none => Action.allocate start

end Fista

end ProxGrad
