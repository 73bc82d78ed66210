import Mathlib.Data.Set.Insert
import ProxGrad.Memory

/-!
# Outcomes of actions

What an action makes of a memory: its result, and the memory that it leaves. Each operation on cells
has one law here, and a sequence of actions is followed through the outcomes of its parts.
-/

set_option autoImplicit false

namespace ProxGrad

theorem exists_of_bind_eq_ok {α β : Type} {a : Except Fault α} {next : α → Except Fault β}
    {result : β} (given : (a >>= next) = .ok result) :
    ∃ value, a = .ok value ∧ next value = .ok result := by
  cases a with
  | error fault => cases given
  | ok value => exact ⟨value, rfl, given⟩

namespace Memory

variable {V : Type}

def content (m : Memory V) (c : Cell) : Option V :=
  m.cells[c.index]?

def put (m : Memory V) (c : Cell) (v : V) : Memory V :=
  { m with cells := m.cells.setIfInBounds c.index v }

/-- The memory with one more cell, which holds a value. -/
def push (m : Memory V) (v : V) : Memory V :=
  { m with cells := m.cells.push v }

def next (m : Memory V) : Cell :=
  ⟨m.cells.size⟩

theorem index_lt_of_content {m : Memory V} {c : Cell} {v : V} (held : m.content c = some v) :
    c.index < m.cells.size := by
  obtain ⟨bound, _⟩ := Array.getElem?_eq_some_iff.mp held
  exact bound

theorem exists_content {m : Memory V} {c : Cell} (bound : c.index < m.cells.size) :
    ∃ v, m.content c = some v :=
  ⟨m.cells[c.index], Array.getElem?_eq_getElem bound⟩

theorem ne_next_of_content {m : Memory V} {c : Cell} {v : V} (held : m.content c = some v) :
    c ≠ m.next := by
  intro same
  have bound := index_lt_of_content held
  rw [same] at bound
  exact Nat.lt_irrefl _ bound

theorem content_put_self {m : Memory V} {c : Cell} {old : V} (held : m.content c = some old)
    (v : V) : (m.put c v).content c = some v := by
  have bound := index_lt_of_content held
  simp [put, content, bound]

theorem content_put_of_ne {c d : Cell} (different : c ≠ d) (m : Memory V) (v : V) :
    (m.put d v).content c = m.content c := by
  have apart : d.index ≠ c.index := by
    intro same
    exact different (by cases c; cases d; simp_all)
  simp [put, content, Array.getElem?_setIfInBounds_ne apart]

@[simp] theorem size_put (m : Memory V) (c : Cell) (v : V) :
    (m.put c v).cells.size = m.cells.size := by
  simp [put]

@[simp] theorem size_push (m : Memory V) (v : V) : (m.push v).cells.size = m.cells.size + 1 := by
  simp [push]

theorem lt_size_push {m : Memory V} {n : Nat} (bound : n < m.cells.size) (v : V) :
    n < (m.push v).cells.size := by
  rw [size_push]
  exact Nat.lt_succ_of_lt bound

@[simp] theorem content_push_next (m : Memory V) (v : V) : (m.push v).content m.next = some v := by
  simp [push, content, next]

theorem content_push_of_lt {m : Memory V} {c : Cell} (bound : c.index < m.cells.size) (v : V) :
    (m.push v).content c = m.content c := by
  simp [push, content, Array.getElem?_push, Nat.ne_of_lt bound]

theorem content_push_of_content {m : Memory V} {c : Cell} {old : V}
    (held : m.content c = some old) (v : V) : (m.push v).content c = some old := by
  have bound := index_lt_of_content held
  simpa [push, content, Array.getElem?_push, Nat.ne_of_lt bound] using held

theorem put_push_next (m : Memory V) (v : V) : (m.push v).put m.next v = m.push v := by
  have same : (m.cells.push v).setIfInBounds m.cells.size v = m.cells.push v := by grind
  rw [put, push, next, same]

theorem put_put (m : Memory V) (c : Cell) (v u : V) : (m.put c v).put c u = m.put c u := by
  simp [put]

@[simp] theorem calls_put (m : Memory V) (c : Cell) (v : V) : (m.put c v).calls = m.calls := rfl

end Memory

/-- Whether every cell outside a set keeps its content from one memory to another. -/
def Memory.KeepsOutside {V : Type} (cells : Set Cell) (m m' : Memory V) : Prop :=
  ∀ c v, c ∉ cells → m.content c = some v → m'.content c = some v

namespace Memory.KeepsOutside

variable {V : Type} {cells : Set Cell} {m m' m'' : Memory V}

theorem refl (cells : Set Cell) (m : Memory V) : KeepsOutside cells m m :=
  fun _ _ _ held => held

theorem trans (first : KeepsOutside cells m m') (second : KeepsOutside cells m' m'') :
    KeepsOutside cells m m'' :=
  fun c v outside held => second c v outside (first c v outside held)

theorem mono {more : Set Cell} (within : cells ⊆ more) (kept : KeepsOutside cells m m') :
    KeepsOutside more m m' :=
  fun c v outside held => kept c v (fun member => outside (within member)) held

theorem put {c : Cell} (member : c ∈ cells) (m : Memory V) (v : V) :
    KeepsOutside cells m (m.put c v) := by
  intro d u outside held
  have different : d ≠ c := by
    intro same
    exact outside (same ▸ member)
  rw [content_put_of_ne different, held]

theorem push (cells : Set Cell) (m : Memory V) (v : V) : KeepsOutside cells m (m.push v) :=
  fun _ _ _ held => content_push_of_content held v

end Memory.KeepsOutside

namespace Action

variable {V α β : Type}

/-- The result of an action on a memory, and the memory that it leaves. -/
def outcome (a : Action V α) (m : Memory V) : Except Fault α × Memory V :=
  a.run m

theorem outcome_bind (a : Action V α) (next : α → Action V β) (m : Memory V) :
    (a >>= next).outcome m =
      match a.outcome m with
      | (.ok value, m') => (next value).outcome m'
      | (.error fault, m') => (.error fault, m') := by
  change (StateT.run (ExceptT.run (a >>= next)) m : Id _) = _
  rw [ExceptT.run_bind, StateT.run_bind]
  cases run : a.outcome m with
  | mk result m' =>
      have unfolded : StateT.run (ExceptT.run a) m = (result, m') := run
      rw [unfolded]
      cases result <;> rfl

/-- A sequence goes on from where its first action succeeded. -/
theorem outcome_bind_of_ok {a : Action V α} {next : α → Action V β} {m m' : Memory V} {value : α}
    (ran : a.outcome m = (.ok value, m')) : (a >>= next).outcome m = (next value).outcome m' := by
  rw [outcome_bind, ran]

theorem outcome_bind_of_error {a : Action V α} {next : α → Action V β} {m m' : Memory V}
    {fault : Fault} (ran : a.outcome m = (.error fault, m')) :
    (a >>= next).outcome m = (.error fault, m') := by
  rw [outcome_bind, ran]

/-- A sequence that succeeded went through a success of its first action. -/
theorem outcome_bind_eq_ok {a : Action V α} {next : α → Action V β} {m m' : Memory V} {result : β}
    (ran : (a >>= next).outcome m = (.ok result, m')) :
    ∃ value between, a.outcome m = (.ok value, between) ∧
      (next value).outcome between = (.ok result, m') := by
  rw [outcome_bind] at ran
  cases first : a.outcome m with
  | mk result between =>
      rw [first] at ran
      cases result with
      | ok value => exact ⟨value, between, rfl, ran⟩
      | error fault => simp at ran

@[simp] theorem outcome_pure (value : α) (m : Memory V) :
    (pure value : Action V α).outcome m = (.ok value, m) := rfl

@[simp] theorem outcome_throw (fault : Fault) (m : Memory V) :
    (throw fault : Action V α).outcome m = (.error fault, m) := rfl

@[simp] theorem outcome_lift (result : Except Fault α) (m : Memory V) :
    (lift result : Action V α).outcome m = (result, m) := rfl

theorem outcome_lift_eq_ok {result : Except Fault α} {m m' : Memory V} {value : α}
    (ran : (lift result).outcome m = (.ok value, m')) : result = .ok value ∧ m' = m := by
  cases ran
  exact ⟨rfl, rfl⟩

@[simp] theorem outcome_current (m : Memory V) :
    (current : Action V _).outcome m = (.ok m, m) := rfl

theorem outcome_read {m : Memory V} {c : Cell} {v : V} (held : m.content c = some v) :
    (read c).outcome m = (.ok v, m) := by
  rw [read, outcome_bind_of_ok (outcome_current m)]
  have found : m.cells[c.index]? = some v := held
  simp only [found, outcome_pure]

theorem outcome_read_of_none {m : Memory V} {c : Cell} (absent : m.content c = none) :
    (read c).outcome m = (.error .unknownName, m) := by
  rw [read, outcome_bind_of_ok (outcome_current m)]
  have missing : m.cells[c.index]? = none := absent
  simp only [missing, outcome_throw]

theorem outcome_read_eq_ok {m m' : Memory V} {c : Cell} {v : V}
    (ran : (read c).outcome m = (.ok v, m')) : m.content c = some v ∧ m' = m := by
  cases held : m.content c with
  | none => cases (outcome_read_of_none held).symm.trans ran
  | some v' =>
      cases (outcome_read held).symm.trans ran
      exact ⟨rfl, rfl⟩

@[simp] theorem outcome_write (c : Cell) (v : V) (m : Memory V) :
    (write c v).outcome m = (.ok (), m.put c v) := rfl

@[simp] theorem outcome_allocate (v : V) (m : Memory V) :
    (allocate v).outcome m = (.ok m.next, m.push v) := rfl

@[simp] theorem outcome_record (call : Call V) (m : Memory V) :
    (record call).outcome m = (.ok (), { m with calls := m.calls.push call }) := rfl

@[simp] theorem outcome_report (n : Nat) (value : V) (m : Memory V) :
    (report n value).outcome m = (.ok (), { m with reports := m.reports.push (n, value) }) := rfl

@[simp] theorem outcome_readRef_const (v : V) (m : Memory V) :
    (readRef (.const v)).outcome m = (.ok v, m) := rfl

theorem outcome_readRef_cell {m : Memory V} {c : Cell} {v : V} (held : m.content c = some v) :
    (readRef (.cell c)).outcome m = (.ok v, m) :=
  outcome_read held

variable [Calculus V]

theorem outcome_store {m : Memory V} {c : Cell} {old : V} (held : m.content c = some old) (v : V) :
    (store c v).outcome m =
      ((Calculus.store old v).2, m.put c (Calculus.store old v).1) := by
  rw [store, outcome_bind_of_ok (outcome_read held)]
  rfl

theorem outcome_freshLike {m : Memory V} {r : Ref V} {v zeros : V}
    (seen : (readRef r).outcome m = (.ok v, m)) (fresh : Calculus.fresh v = .ok zeros) :
    (freshLike r).outcome m = (.ok m.next, m.push (m.leftover m.next zeros)) := by
  rw [freshLike, outcome_bind_of_ok seen, fresh]
  rfl

theorem outcome_freshLike_eq_ok {m m' : Memory V} {x c : Cell}
    (ran : (freshLike (.cell x)).outcome m = (.ok c, m')) : c = m.next ∧ ∃ v, m' = m.push v := by
  obtain ⟨v, between, seen, afterRead⟩ := outcome_bind_eq_ok ran
  obtain ⟨_, rfl⟩ := outcome_read_eq_ok seen
  obtain ⟨zeros, _, fresh, afterFresh⟩ := outcome_bind_eq_ok afterRead
  obtain ⟨_, rfl⟩ := outcome_lift_eq_ok fresh
  rw [outcome_bind_of_ok (outcome_current _), outcome_allocate] at afterFresh
  cases afterFresh
  exact ⟨rfl, _, rfl⟩

end Action

end ProxGrad
