import ProxGrad.Memory
import ProxGrad.Value.Text
import ProxGrad.Value.Array

/-!
# Options of the accelerated method

The parameters of a run as an immutable value. Every way of making one checks the Lipschitz
constant, the reset counter and the number of iterations in this order; a history is an array with
one entry for each iteration. Rebinding the constant shares all other fields, the history included.
-/

set_option autoImplicit false

namespace ProxGrad

/-- Options of the accelerated method, with fields as their maker gave them. -/
structure FistaOptions where
  lipschitz : Value
  accelerated : Value
  resetCounter : Value
  iterations : Value
  verbose : Value
  /-- The array that receives the value of each iteration. -/
  history : Option Cell

namespace Value

def isAbsent : Value → Bool
  | .absent => true
  | _ => false

def integer? : Value → Option Int
  | .int i => some i
  | .scalar (.int ..) (.int i) => some i
  | _ => none

def isReal : Value → Bool
  | .int _ | .real _ | .fraction .. | .scalar (.int ..) _ | .scalar (.real _) _ => true
  | _ => false

/-- Whether a real number is finite and positive. Integers beyond 64 bits and ratios are of no
element type, and the question is not defined for them. -/
def isFinitePositive? : Value → Except Fault Bool
  | .int i =>
    if DType.holds true 64 i || DType.holds false 64 i then .ok (0 < i) else .error .operandTypes
  | .real x | .scalar _ (.real x) => .ok (x.isFinite && !x.isZero && !x.isNegative)
  | .scalar _ (.int i) => .ok (0 < i)
  | _ => .error .operandTypes

end Value

namespace FistaOptions

/-- Refuses a parameter, in a message that shows it. -/
def refuse (defect : String → OptionsDefect) (v : Value) : Except Fault Unit := do
  throw (.invalidOptions (defect (← v.written?)))

def checkLipschitz (v : Value) : Except Fault Unit := do
  if !v.isReal then refuse .lipschitz v
  else if !(← v.isFinitePositive?) then refuse .lipschitz v

def checkCount (least : Int) (defect : String → OptionsDefect) (v : Value) : Except Fault Unit :=
  if v.isAbsent || v.integer?.any (least ≤ ·) then .ok ()
  else refuse defect v

def checkParameters (lipschitz resetCounter iterations : Value) : Except Fault Unit := do
  if !lipschitz.isAbsent then checkLipschitz lipschitz
  checkCount 1 .resetCounter resetCounter
  checkCount 0 .iterations iterations

/-- What a message tells of a history that does not fit: its shape, or the name of its type. -/
def historyShown : Value → String
  | .array a => writtenShape (a.shape.map toString)
  | .scalar .. => writtenShape []
  | v => v.typeName

def fitsHistory (iterations : Value) : Value → Bool
  | .array a => iterations.integer?.any fun n => a.shape.map Int.ofNat == [n]
  | _ => false

def make (lipschitz accelerated resetCounter iterations verbose : Value)
    (history : Option (Cell × Value)) : Except Fault FistaOptions := do
  checkParameters lipschitz resetCounter iterations
  match history with
  | some (cell, content) =>
    if !fitsHistory iterations content then
      throw (.invalidOptions (.history (← iterations.plain?) (historyShown content)))
    return { lipschitz, accelerated, resetCounter, iterations, verbose, history := some cell }
  | none => return { lipschitz, accelerated, resetCounter, iterations, verbose, history := none }

def withLipschitz (options : FistaOptions) (lipschitz : Value) : Except Fault FistaOptions := do
  checkLipschitz lipschitz
  return { options with lipschitz }

/-- The copy that the constructor makes of options. It checks them once more, also the array that
receives the history, which may have changed its shape in the meantime. -/
def copied (options : FistaOptions) (content : Cell → Value) : Except Fault FistaOptions :=
  make options.lipschitz options.accelerated options.resetCounter options.iterations options.verbose
    (options.history.map fun c => (c, content c))

def literalCount (v : Value) : Value :=
  match v.integer? with
  | some n => .int n
  | none => .absent

/-- A new history, where the machine has space for so many bytes, or for any number if there is no
bound. -/
def newHistory (space : Option Nat) (iterations : Int) (lipschitz : Value) :
    Except Fault NDArray :=
  let dtype := lipschitz.bufferType
  let bytes := iterations * dtype.size
  if !DType.holds true 64 iterations || !DType.holds true 64 bytes then .error .arraySize
  else if space.any fun limit => bytes > limit then .error .memory
  else .ok ⟨dtype, .fill [iterations.toNat] (.zero dtype)⟩

/-- The options with counts as literals, flags by their truth, and a new history where one is asked
for and the number of iterations is known. -/
def build (space : Option Nat)
    (lipschitz accelerated resetCounter iterations verbose recordHistory : Value) :
    Action Value FistaOptions := do
  Action.lift (checkParameters lipschitz resetCounter iterations)
  let recorded ← Action.lift recordHistory.truth?
  let history ← match recorded, iterations.integer? with
    | true, some n => some <$>
        (do Action.allocate (Value.array (← Action.lift (newHistory space n lipschitz))))
    | _, _ => pure none
  let accelerated ← Action.lift accelerated.truth?
  let verbose ← Action.lift verbose.truth?
  return { lipschitz, accelerated := .bool accelerated, resetCounter := literalCount resetCounter,
           iterations := literalCount iterations, verbose := .bool verbose, history }

/-- The number of iterations that a run makes. The bound of its loop is one more than the stored
count, in the arithmetic of the stored count's own type. -/
def loopCount : Value → Option Nat
  | .int n => some n.toNat
  | .scalar (.int signed bits) (.int n) => some (DType.wrap signed bits (n + 1) - 1).toNat
  | _ => none

end FistaOptions

end ProxGrad
