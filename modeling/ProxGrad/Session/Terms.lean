import ProxGrad.Session.World

/-!
# Terms of a session

The smooth terms and term values that the instances of a session stand for. Each method comes from
the first ancestor that defines it; the derived evaluations of the interface call the instance's own
ones.
-/

set_option autoImplicit false

namespace ProxGrad.Session

def failingTerm (fault : Fault) : SmoothTerm Value where
  valueAndGradient _ _ := throw fault
  gradient _ _ := throw fault
  value _ := throw fault

def withField (w : World) (h : Handle) (name : String) (f : Ref Value → SmoothTerm Value) :
    SmoothTerm Value where
  valueAndGradient x out := do (f (← w.fieldRef h name)).valueAndGradient x out
  gradient x out := do (f (← w.fieldRef h name)).gradient x out
  value x := do (f (← w.fieldRef h name)).value x

/-! ## Counted calls -/

def readField (w : World) (h : Handle) (name : String) : Action Value Value := do
  Action.readRef (← w.fieldRef h name)

def countUp (w : World) (h : Handle) : Action Value Unit := do
  let next ← Action.lift (Calculus.add (← readField w h "calls") (.int 1))
  match w.field? h "calls" with
  | some (.data c) => Action.write c next
  | _ => throw .noField

def isSpent (w : World) (h : Handle) (limit : Value) : Action Value Bool := do
  let calls ← readField w h "calls"
  Action.lift (Value.related .atMost limit calls)

/-- The copy of a point that a report holds. Values without copies are not reported. -/
def copied (v : Value) : Except Fault Value :=
  match v with
  | .array _ | .scalar .. | .list _ | .dict _ => .ok v
  | _ => .error .noField

def countCall (w : World) (h : Handle) (kind : Evaluation) (x : Ref Value) :
    Action Value Unit := do
  let limit ← readField w h "fail_at"
  if !limit.isAbsent then
    if ← isSpent w h limit then throw (.term .gradient)
  countUp w h
  let point ← Action.lift (copied (← Action.readRef x))
  Action.record (.evaluation kind point)

def counted (w : World) (h : Handle) (inner : SmoothTerm Value) : SmoothTerm Value where
  valueAndGradient x out := do
    countCall w h .valueAndGradient x
    inner.valueAndGradient x out
  gradient x out := do
    countCall w h .gradient x
    inner.gradient x out
  value x := do
    countCall w h .value x
    inner.value x

/-! ## Least squares -/

/-- The sides that a value names: one, or one for each of its items. A truth value is no side. -/
def sidesOf (v : Value) : Except Fault (List Int) :=
  let side (v : Value) : Except Fault Int :=
    match v.integer? with
    | some i => if DType.holds true 64 i then .ok i else .error .shapes
    | none => .error .operandTypes
  match v with
  | .list items | .tuple items =>
    if items.length > Outline.limit then .error .shapes else items.mapM side
  | .array ⟨.int .., ⟨_ :: rest, entries, _⟩⟩ =>
    if rest.isEmpty then
      (entries.mapM fun x => match x with
        | .int i => .ok i
        | _ => .error .operandTypes)
    else .error .operandTypes
  | .array ⟨.int .., ⟨[], [.int i], _⟩⟩ => .ok [i]
  | v => (side v).map fun i => [i]

/-- Sides of which one may be left open, written as less than zero, for so many entries. -/
def closedSides (count : Nat) (sides : List Int) : Except Fault (List Nat) :=
  match sides.filter (· < 0) with
  | [] => .ok (sides.map Int.toNat)
  | [-1] =>
    let known := Shape.size ((sides.filter (0 ≤ ·)).map Int.toNat)
    if known = 0 || count % known ≠ 0 then .error .shapes
    else .ok (sides.map fun n => if n < 0 then count / known else n.toNat)
  | _ => .error .shapes

/-- An array under the shape that a value names; its own where the value is absent. -/
def reshapeTo (shape v : Value) : Except Fault Value := do
  let a ← v.toArray none
  if shape.isAbsent then return .array a
  return .array (← a.reshape (← closedSides a.size (← sidesOf shape)))

/-- The operator of a least-squares term. Another value in its place has no products. -/
def operatorOf (w : World) (h : Handle) : Except Fault (LinearOperator Value) :=
  match (w.field? h "A").bind w.instance? with
  | some { body := .operator a, .. } => .ok a
  | _ => .error .noField

def leastSquaresOf (w : World) (h : Handle) : Except Fault (LeastSquares Value) := do
  let operator ← operatorOf w h
  match w.field? h "y", w.field? h "input_shape" with
  | some y, some shape =>
    return { operator, observed := w.refOf y, shaped := reshapeTo (w.shown shape) }
  | _, _ => throw .noField

/-- The least-squares term of an instance. Its residual may be hidden by a field. -/
def leastSquaresTerm (w : World) (h : Handle) : SmoothTerm Value :=
  match w.method h .residual, leastSquaresOf w h with
  | .ok _, .ok f => f.term
  | .error fault, _ | _, .error fault => failingTerm fault

/-! ## Smooth terms -/

/-- The term that a class defines for an instance, where `nested` gives the term of another
object. -/
def definedTerm (w : World) (h : Handle) (body : Body) (nested : Handle → SmoothTerm Value)
    (owner : ClassId) : SmoothTerm Value :=
  if owner = .squaredDistance then withField w h "y" Terms.squaredDistance
  else if owner = .diagonal then withField w h "d" Terms.diagonal
  else if owner = .cubic then withField w h "c" Terms.cubic
  else if owner = .wrongGradient then withField w h "factor" Terms.scaledGradient
  else if owner = .smooth then Terms.total
  else if owner = .leastSquares then leastSquaresTerm w h
  else
    match body with
    | .counting inner => counted w h (nested inner)
    | _ => failingTerm .noField

/-- The smooth term that an object stands for. Counted terms nest, at most as deep as there are
objects. -/
def smoothTermWithin (w : World) : Nat → Handle → SmoothTerm Value
  | 0, _ => failingTerm .noField
  | fuel + 1, h =>
    match w.instance? h with
    | none => failingTerm .noField
    | some i =>
      let defined := definedTerm w h i.body (smoothTermWithin w fuel)
      let own (m : Method) : SmoothTerm Value :=
        match w.method h m with
        | .ok c => defined c
        | .error fault => failingTerm fault
      let derived := SmoothTerm.ofValueAndGradient (own .valueAndGradient).valueAndGradient
      let inherited (m : Method) : Bool := (w.method h m).toOption = some .differentiable
      { valueAndGradient := (own .valueAndGradient).valueAndGradient
        gradient := if inherited .gradient then derived.gradient else (own .gradient).gradient
        value := if inherited .value then derived.value else (own .value).value }

def smoothTerm (w : World) (h : Handle) : SmoothTerm Value :=
  smoothTermWithin w w.objects.size h

/-! ## Other terms -/

def indicatorNonNegative (x : Ref Value) : Action Value Value := do
  let negative ← Action.lift (Value.relate .less (← Action.readRef x) (.int 0))
  let found ← Action.lift (do return (← negative.toArray none).data.entries.any Scalar.toBool)
  return .real (if found then .infinite false else .zero)

/-- The value of a term that is not differentiated, by the class that defines it. -/
def definedValue (w : World) (h : Handle) (nested : Handle → Ref Value → Action Value Value)
    (owner : ClassId) (x : Ref Value) : Action Value Value := do
  if owner = .l1Norm then Terms.valueL1 (← w.fieldRef h "weight") x
  else if owner = .ridge then Terms.valueRidge (← w.fieldRef h "weight") x
  else if owner = .nonNegative then indicatorNonNegative x
  else if owner = .zeroTerm then return .real .zero
  else if owner = .target then Terms.valueTotal x
  else if owner = .failing then throw (.term .value)
  else if owner = .composite then
    match w.field? h "diff", w.field? h "prox" with
    | some diff, some prox =>
      let f ← (smoothTerm w diff).value x
      let g ← nested prox x
      Action.lift (Calculus.add f g)
    | _, _ => throw .noField
  else throw .noField

/-- The value of an object at a point; composites nest at most as deep as there are objects. -/
def termValueWithin (w : World) : Nat → Handle → Ref Value → Action Value Value
  | 0, _, _ => throw .noField
  | fuel + 1, h, x => do
    let owner ← Action.lift (w.method h .termValue)
    definedValue w h (termValueWithin w fuel) owner x

def termValue (w : World) (h : Handle) (x : Ref Value) : Action Value Value :=
  termValueWithin w w.objects.size h x

def callValue (w : World) (h : Handle) (x : Ref Value) : Action Value Value :=
  match w.owner? h .call with
  | none => throw .operandTypes
  | some owner => if owner = .differentiable then (smoothTerm w h).call x else termValue w h x

end ProxGrad.Session
