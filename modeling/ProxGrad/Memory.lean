import ProxGrad.Calculus

/-!
# Memory

The cells in which arrays live, and what an observer sees of a computation besides its result: the
calls made to terms, in order, and the lines reported. A term reads its argument through a
reference, because the array it is given may be the one that the solver overwrites. A failed
computation keeps the memory it has written.
-/

set_option autoImplicit false

namespace ProxGrad

/-- A cell of the memory. -/
structure Cell where
  index : Nat
deriving DecidableEq, Repr, Inhabited

/-- An argument: the content of a cell at the time it is read, or a fixed value. -/
inductive Ref (V : Type) where
  | cell (c : Cell)
  | const (v : V)

/-- The evaluations of a differentiable term. -/
inductive Evaluation where
  | valueAndGradient
  | gradient
  | value
deriving DecidableEq, Repr

/-- A call to a term or an operator that reports its calls. -/
inductive Call (V : Type) where
  /-- An evaluation of a term at a point. -/
  | evaluation (kind : Evaluation) (point : V)
  /-- A proximal map with its step. -/
  | prox (name : String) (step : V)
  /-- A registered implementation with the classes of its term and of its options, and its step if
  it has one. -/
  | implementation (name term options : String) (step : Option V)
  /-- A draw of standard normal numbers of a shape. -/
  | standardNormal (shape : List Nat)
  /-- A draw of normal numbers along one side. -/
  | normal (size : Nat)

/-- Cells, and what has been observed so far. -/
structure Memory (V : Type) where
  cells : Array V := #[]
  calls : Array (Call V) := #[]
  reports : Array (Nat × V) := #[]
  /-- What a new array in a cell holds before anything is stored into it, where the array of zeros
  like it is given. -/
  leftover : Cell → V → V := fun _ zeros => zeros

/-- A computation on the memory that may fail; what it wrote before failing stays. -/
abbrev Action (V : Type) : Type → Type :=
  ExceptT Fault (StateM (Memory V))

namespace Action

variable {V : Type}

def lift {α : Type} (result : Except Fault α) : Action V α :=
  ExceptT.mk (pure result)

def current : Action V (Memory V) :=
  ExceptT.lift get

def modifyMemory (f : Memory V → Memory V) : Action V Unit :=
  ExceptT.lift (modify f)

def read (c : Cell) : Action V V := do
  match (← current).cells[c.index]? with
  | some v => return v
  | none => throw .unknownName

def write (c : Cell) (v : V) : Action V Unit :=
  modifyMemory fun m => { m with cells := m.cells.setIfInBounds c.index v }

def allocate (v : V) : Action V Cell := do
  let m ← current
  modifyMemory fun m => { m with cells := m.cells.push v }
  return ⟨m.cells.size⟩

def readRef : Ref V → Action V V
  | .cell c => read c
  | .const v => pure v

/-- Stores a value into the array in a cell, converted and repeated to the array's type and shape.
What a store that fails has changed stays. -/
def store [Calculus V] (c : Cell) (v : V) : Action V Unit := do
  let (content, result) := Calculus.store (← read c) v
  write c content
  lift result

/-- A new array like the content of a reference. Nothing is stored into it: it holds what its cell
was left with. -/
def freshLike [Calculus V] (r : Ref V) : Action V Cell := do
  let zeros ← lift (Calculus.fresh (← readRef r))
  let m ← current
  allocate (m.leftover ⟨m.cells.size⟩ zeros)

def record (call : Call V) : Action V Unit :=
  modifyMemory fun m => { m with calls := m.calls.push call }

def report (iteration : Nat) (value : V) : Action V Unit :=
  modifyMemory fun m => { m with reports := m.reports.push (iteration, value) }

end Action

end ProxGrad
