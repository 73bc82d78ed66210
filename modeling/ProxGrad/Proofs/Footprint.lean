import ProxGrad.Proofs.Action

/-!
# Footprints of actions

Which cells an action writes to, and which calls it records. An action that fails has a footprint as
well, because what it did before stays. A sequence has the footprint of its parts.
-/

set_option autoImplicit false

namespace ProxGrad

variable {V α β : Type}

/-! ## Turns -/

/-- The terms that a run calls. -/
inductive Turn where
  | evaluation
  | prox
deriving DecidableEq, Repr

/-- The term whose call is recorded. Draws of random numbers are no calls to a term. -/
def Call.turn? : Call V → Option Turn
  | .evaluation .. => some .evaluation
  | .prox .. | .implementation .. => some .prox
  | .standardNormal _ | .normal _ => none

def Memory.turns (m : Memory V) : List Turn :=
  m.calls.toList.filterMap Call.turn?

theorem Memory.turns_eq_of_calls {m m' : Memory V} (same : m'.calls = m.calls) :
    m'.turns = m.turns := by
  rw [turns, same, turns]

namespace Action

variable {cells : Set Cell} {turns : List Turn}

/-- An action that writes to these cells only, besides those that it allocates, and loses none, also
if it fails. -/
def Within (cells : Set Cell) (a : Action V α) : Prop :=
  ∀ m : Memory V, m.KeepsOutside cells (a.outcome m).2 ∧
    m.cells.size ≤ (a.outcome m).2.cells.size

/-- An action that records these calls, or none where it fails. -/
def Announces (turns : List Turn) (a : Action V α) : Prop :=
  ∀ m : Memory V, (a.outcome m).2.turns = m.turns ++ turns ∨
    (∃ fault, (a.outcome m).1 = .error fault) ∧ (a.outcome m).2.turns = m.turns

/-- An action that leaves the memory as it is. -/
def Still (a : Action V α) : Prop :=
  ∀ m : Memory V, (a.outcome m).2 = m

/-- An action that records no call. -/
def Silent (a : Action V α) : Prop :=
  ∀ m : Memory V, (a.outcome m).2.calls = m.calls

/-- What both parts of a sequence leave as it was, the sequence does. -/
theorem same_after_bind {σ : Type} (see : Memory V → σ) {a : Action V α} {next : α → Action V β}
    (first : ∀ m, see (a.outcome m).2 = see m)
    (rest : ∀ value m, see ((next value).outcome m).2 = see m) (m : Memory V) :
    see ((a >>= next).outcome m).2 = see m := by
  have here := first m
  rw [outcome_bind]
  cases ran : a.outcome m with
  | mk result m' =>
    rw [ran] at here
    cases result with
    | ok value => exact (rest value m').trans here
    | error fault => exact here

theorem still_lift (result : Except Fault α) : (lift result : Action V α).Still := fun _ => rfl

theorem still_pure (value : α) : (pure value : Action V α).Still := fun _ => rfl

theorem still_throw (fault : Fault) : (throw fault : Action V α).Still := fun _ => rfl

theorem still_read (c : Cell) : (read c : Action V V).Still := by
  intro m
  cases held : m.content c with
  | none => rw [outcome_read_of_none held]
  | some v => rw [outcome_read held]

theorem still_readRef (r : Ref V) : (readRef r).Still := by
  cases r with
  | cell c => exact still_read c
  | const v => exact still_pure v

theorem Still.bind {a : Action V α} {next : α → Action V β} (first : a.Still)
    (rest : ∀ value, (next value).Still) : (a >>= next).Still :=
  same_after_bind id first rest

theorem Silent.of_still {a : Action V α} (still : a.Still) : a.Silent := by
  intro m
  rw [still m]

theorem Silent.bind {a : Action V α} {next : α → Action V β} (first : a.Silent)
    (rest : ∀ value, (next value).Silent) : (a >>= next).Silent :=
  same_after_bind Memory.calls first rest

theorem Silent.write (c : Cell) (v : V) : (Action.write c v).Silent := fun _ => rfl

theorem Silent.store [Calculus V] (c : Cell) (v : V) : (Action.store c v).Silent :=
  .bind (.of_still (still_read c)) fun _ => .bind (write c _) fun _ => .of_still (still_lift _)

theorem Within.of_still {a : Action V α} (still : a.Still) : a.Within cells := by
  intro m
  rw [still m]
  exact ⟨.refl cells m, Nat.le_refl _⟩

theorem Within.mono {a : Action V α} {more : Set Cell} (within : a.Within cells)
    (included : cells ⊆ more) : a.Within more :=
  fun m => ⟨(within m).1.mono included, (within m).2⟩

theorem Within.bind {a : Action V α} {next : α → Action V β} (first : a.Within cells)
    (rest : ∀ value, (next value).Within cells) : (a >>= next).Within cells := by
  intro m
  have here := first m
  rw [outcome_bind]
  cases ran : a.outcome m with
  | mk result m' =>
    rw [ran] at here
    cases result with
    | ok value =>
      have there := rest value m'
      exact ⟨here.1.trans there.1, here.2.trans there.2⟩
    | error fault => exact here

theorem Within.write {c : Cell} (member : c ∈ cells) (v : V) :
    (Action.write c v).Within cells :=
  fun m => ⟨.put member m v, by simp⟩

theorem Within.record (call : Call V) : (Action.record call).Within cells :=
  fun m => ⟨.refl cells m, Nat.le_refl _⟩

theorem Within.store [Calculus V] {c : Cell} (member : c ∈ cells) (v : V) :
    (Action.store c v).Within cells := by
  exact .bind (.of_still (still_read c)) fun old => .bind (.write member _) fun _ =>
    .of_still (still_lift _)

/-- What an action does not write to, it leaves as it was. -/
theorem Within.content {a : Action V α} (within : a.Within cells) {c : Cell} {v : V}
    {m m' : Memory V} {result : Except Fault α} (ran : a.outcome m = (result, m'))
    (outside : c ∉ cells) (held : m.content c = some v) : m'.content c = some v := by
  have kept := (within m).1 c v outside held
  rwa [ran] at kept

theorem Within.size_le {a : Action V α} (within : a.Within cells) {m m' : Memory V}
    {result : Except Fault α} (ran : a.outcome m = (result, m')) :
    m.cells.size ≤ m'.cells.size := by
  have larger := (within m).2
  rwa [ran] at larger

theorem Announces.of_ok {a : Action V α} (announces : a.Announces turns) {m m' : Memory V}
    {value : α} (ran : a.outcome m = (.ok value, m')) : m'.turns = m.turns ++ turns := by
  have either := announces m
  rw [ran] at either
  rcases either with added | ⟨⟨fault, impossible⟩, -⟩
  · exact added
  · cases impossible

theorem Announces.of_silent {a : Action V α} (silent : a.Silent) : a.Announces [] := by
  intro m
  rw [Memory.turns_eq_of_calls (silent m), List.append_nil]
  exact .inl rfl

theorem Announces.of_still {a : Action V α} (still : a.Still) : a.Announces [] :=
  .of_silent (.of_still still)

/-- An action that records no calls records none where it fails either. -/
theorem Announces.turns_eq {a : Action V α} (quiet : a.Announces []) (m : Memory V) :
    (a.outcome m).2.turns = m.turns := by
  rcases quiet m with same | ⟨-, same⟩
  · rw [same, List.append_nil]
  · exact same

theorem Announces.bind {a : Action V α} {next : α → Action V β} (quiet : a.Announces [])
    (rest : ∀ value, (next value).Announces turns) : (a >>= next).Announces turns := by
  intro m
  have same := quiet.turns_eq m
  rw [outcome_bind]
  cases ran : a.outcome m with
  | mk result m' =>
    rw [ran] at same
    cases result with
    | ok value => exact same ▸ rest value m'
    | error fault => exact .inr ⟨⟨fault, rfl⟩, same⟩

theorem Announces.bind_quiet {a : Action V α} {next : α → Action V β} (first : a.Announces turns)
    (quiet : ∀ value, (next value).Announces []) : (a >>= next).Announces turns := by
  intro m
  have either := first m
  rw [outcome_bind]
  cases ran : a.outcome m with
  | mk result m' =>
    rw [ran] at either
    cases result with
    | ok value =>
      rw [(quiet value).turns_eq m']
      exact .inl (first.of_ok ran)
    | error fault => exact either.imp_right fun both => ⟨⟨fault, rfl⟩, both.2⟩

theorem Announces.record {call : Call V} {turn : Turn} (recorded : call.turn? = some turn) :
    (Action.record call).Announces [turn] := by
  intro m
  refine .inl ?_
  simp [Memory.turns, recorded]

end Action

end ProxGrad
