import ProxGrad.Proofs.Floating
import ProxGrad.Proofs.Footprint
import ProxGrad.Solver.Term

/-!
# Arrays that last

An array in a cell keeps its element type and its shape for good; only its entries change. This
holds of every store into an array, so of the terms that store into their destinations, and of the
solver as long as it holds of the terms that it calls.
-/

set_option autoImplicit false

namespace ProxGrad

namespace Memory

variable {m m' m'' : Memory Value} {c : Cell} {d : DType} {s : List Nat}

/-- Whether a cell holds an array of an element type and a shape. -/
def Holds (m : Memory Value) (c : Cell) (d : DType) (s : List Nat) : Prop :=
  ∃ a, m.content c = some (.array a) ∧ a.dtype = d ∧ a.shape = s

/-- Whether every array of one memory has its element type and its shape in another. -/
def KeepsArrays (m m' : Memory Value) : Prop :=
  ∀ c d s, m.Holds c d s → m'.Holds c d s

theorem KeepsArrays.refl (m : Memory Value) : m.KeepsArrays m :=
  fun _ _ _ holds => holds

theorem KeepsArrays.trans (first : m.KeepsArrays m') (second : m'.KeepsArrays m'') :
    m.KeepsArrays m'' :=
  fun c d s holds => second c d s (first c d s holds)

theorem keepsArrays_of_content (same : ∀ c v, m.content c = some v → m'.content c = some v) :
    m.KeepsArrays m' := by
  rintro c d s ⟨a, held, kind⟩
  exact ⟨a, same c _ held, kind⟩

theorem keepsArrays_push (m : Memory Value) (v : Value) : m.KeepsArrays (m.push v) :=
  keepsArrays_of_content fun _ _ held => content_push_of_content held v

/-- An array may be replaced by one of its type and shape, and anything else by anything. -/
theorem keepsArrays_put {v : Value} (kind : ∀ a, m.content c = some (.array a) →
    ∃ b, v = .array b ∧ b.dtype = a.dtype ∧ b.shape = a.shape) : m.KeepsArrays (m.put c v) := by
  rintro e d s ⟨a, held, rfl, rfl⟩
  by_cases same : e = c
  · subst same
    obtain ⟨b, rfl, dtype, shape⟩ := kind a held
    exact ⟨b, content_put_self held _, dtype, shape⟩
  · exact ⟨a, (content_put_of_ne same m v).trans held, rfl, rfl⟩

/-- A memory whose new arrays have the type and the shape of the arrays that they are made like,
whatever they hold. -/
def AllocatesAlike (m : Memory Value) : Prop :=
  ∀ c a, ∃ b, m.leftover c (.array a) = .array b ∧ b.dtype = a.dtype ∧ b.shape = a.shape

end Memory

namespace Action

variable {α β : Type}

/-- An action that keeps the types and the shapes of all arrays, also if it fails. -/
def Lasting (a : Action Value α) : Prop :=
  ∀ m : Memory Value, m.KeepsArrays (a.outcome m).2

theorem Lasting.of_still {a : Action Value α} (still : a.Still) : a.Lasting := by
  intro m
  rw [still m]
  exact .refl m

theorem Lasting.bind {a : Action Value α} {next : α → Action Value β} (first : a.Lasting)
    (rest : ∀ value, (next value).Lasting) : (a >>= next).Lasting := by
  intro m
  have here := first m
  rw [outcome_bind]
  cases ran : a.outcome m with
  | mk result m' =>
    rw [ran] at here
    cases result with
    | ok value => exact here.trans (rest value m')
    | error fault => exact here

theorem Lasting.keepsArrays {a : Action Value α} (lasting : a.Lasting) {m m' : Memory Value}
    {result : Except Fault α} (ran : a.outcome m = (result, m')) : m.KeepsArrays m' := by
  have kept := lasting m
  rwa [ran] at kept

theorem lasting_record (call : Call Value) : (record call).Lasting :=
  fun m => .refl m

theorem lasting_allocate (v : Value) : (allocate v).Lasting :=
  fun m => Memory.keepsArrays_push m v

theorem lasting_store (c : Cell) (v : Value) : (store c v).Lasting := by
  intro m
  cases held : m.content c with
  | none =>
    rw [store, outcome_bind_of_error (outcome_read_of_none held)]
    exact .refl m
  | some old =>
    rw [outcome_store held]
    refine Memory.keepsArrays_put fun a same => ?_
    cases held.symm.trans same
    exact Value.exists_store_array a v

end Action

/-- An objective whose terms keep the types and the shapes of all arrays. -/
structure Objective.Lasting (objective : Objective Value) : Prop where
  gradient (x out : Cell) : (objective.smooth.gradient (.cell x) out).Lasting
  valueAndGradient (x out : Cell) : (objective.smooth.valueAndGradient (.cell x) out).Lasting
  prox (y step : Value) (out : Cell) : (objective.proximal.prox (.const y) step out).Lasting

end ProxGrad
