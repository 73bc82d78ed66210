import Mathlib.Data.Set.Basic
import ProxGrad.Proofs.Action

/-!
# Runs that are alike

Two memories agree if they differ only in one hidden cell and in the cells of terms, where what the
terms keep is related in a way of their own. The arrays that terms allocate on the way are theirs as
well. Two actions are alike on such memories if both succeed or both fail with one fault, and leave
memories that agree again. What was called or reported on the way is not compared.
-/

set_option autoImplicit false

namespace ProxGrad

variable {V : Type}

/-- What terms keep in cells of their own, compared between two memories. Other cells do not matter
for it. -/
structure Likeness (V : Type) where
  kept : Set Cell
  /-- The index from which on cells are arrays that terms allocate for themselves. -/
  scratch : Nat
  alike : Memory V → Memory V → Prop
  alike_of_same : ∀ {m₁ m₁' m₂ m₂' : Memory V},
    (∀ c, c ∈ kept ∨ scratch ≤ c.index → m₁'.content c = m₁.content c) →
    (∀ c, c ∈ kept ∨ scratch ≤ c.index → m₂'.content c = m₂.content c) →
    alike m₁ m₂ → alike m₁' m₂'

def Likeness.cells (own : Likeness V) : Set Cell :=
  {c | c ∈ own.kept ∨ own.scratch ≤ c.index}

theorem Likeness.not_kept {own : Likeness V} {c : Cell} (foreign : c ∉ own.cells) : c ∉ own.kept :=
  fun inside => foreign (.inl inside)

theorem Likeness.index_lt {own : Likeness V} {c : Cell} (foreign : c ∉ own.cells) :
    c.index < own.scratch :=
  Nat.lt_of_not_le fun beyond => foreign (.inr beyond)

namespace Memory

/-- Memories that agree but for a hidden cell and for what terms keep. -/
structure Agree (own : Likeness V) (hidden : Cell) (m₁ m₂ : Memory V) : Prop where
  larger : own.scratch ≤ m₁.cells.size
  larger' : own.scratch ≤ m₂.cells.size
  leftover : m₁.leftover = m₂.leftover
  content : ∀ c, c ∉ own.cells → c ≠ hidden → m₁.content c = m₂.content c
  alike : own.alike m₁ m₂

namespace Agree

variable {own : Likeness V} {hidden : Cell} {m₁ m₂ : Memory V}

theorem refl {m : Memory V} (larger : own.scratch ≤ m.cells.size) (alike : own.alike m m) :
    Agree own hidden m m :=
  ⟨larger, larger, rfl, fun _ _ _ => rfl, alike⟩

theorem put {c : Cell} (agree : Agree own hidden m₁ m₂) (foreign : c ∉ own.cells) (v : V) :
    Agree own hidden (m₁.put c v) (m₂.put c v) where
  larger := by rw [size_put]; exact agree.larger
  larger' := by rw [size_put]; exact agree.larger'
  leftover := agree.leftover
  content := by
    intro d outside visible
    by_cases same : d = c
    · subst same
      have existing := Likeness.index_lt foreign
      obtain ⟨_, held₁⟩ := exists_content (Nat.lt_of_lt_of_le existing agree.larger)
      obtain ⟨_, held₂⟩ := exists_content (Nat.lt_of_lt_of_le existing agree.larger')
      rw [content_put_self held₁, content_put_self held₂]
    · rw [content_put_of_ne same, content_put_of_ne same, agree.content d outside visible]
  alike := by
    have apart : ∀ d ∈ own.cells, d ≠ c := fun d inside same => foreign (same ▸ inside)
    exact own.alike_of_same (fun d inside => content_put_of_ne (apart d inside) m₁ v)
      (fun d inside => content_put_of_ne (apart d inside) m₂ v) agree.alike

theorem put_hidden (agree : Agree own hidden m₁ m₂) (foreign : hidden ∉ own.cells) (v : V) :
    Agree own hidden m₁ (m₂.put hidden v) where
  larger := agree.larger
  larger' := by rw [size_put]; exact agree.larger'
  leftover := agree.leftover
  content := by
    intro d outside visible
    rw [content_put_of_ne visible, agree.content d outside visible]
  alike := by
    have apart : ∀ d ∈ own.cells, d ≠ hidden := fun d inside same => foreign (same ▸ inside)
    exact own.alike_of_same (fun _ _ => rfl)
      (fun d inside => content_put_of_ne (apart d inside) m₂ v) agree.alike

theorem reports (agree : Agree own hidden m₁ m₂) (reports : Array (Nat × V)) :
    Agree own hidden m₁ { m₂ with reports } where
  larger := agree.larger
  larger' := agree.larger'
  leftover := agree.leftover
  content := agree.content
  alike := by
    have same : ∀ c ∈ own.cells, ({ m₂ with reports } : Memory V).content c = m₂.content c :=
      fun _ _ => rfl
    exact own.alike_of_same (fun _ _ => rfl) same agree.alike

theorem calls (agree : Agree own hidden m₁ m₂) (calls₁ calls₂ : Array (Call V)) :
    Agree own hidden { m₁ with calls := calls₁ } { m₂ with calls := calls₂ } where
  larger := agree.larger
  larger' := agree.larger'
  leftover := agree.leftover
  content := agree.content
  alike := by
    have same (m : Memory V) (calls : Array (Call V)) :
        ∀ c ∈ own.cells, ({ m with calls } : Memory V).content c = m.content c := fun _ _ => rfl
    exact own.alike_of_same (same m₁ calls₁) (same m₂ calls₂) agree.alike

end Agree

end Memory

/-- Results that succeed with related values, or fail with one fault. -/
inductive SameResult {α β : Type} (R : α → β → Prop) : Except Fault α → Except Fault β → Prop where
  | ok {a : α} {b : β} : R a b → SameResult R (.ok a) (.ok b)
  | error (fault : Fault) : SameResult R (.error fault) (.error fault)

theorem SameResult.of_eq {α : Type} {result : Except Fault α} :
    SameResult (fun a b => a = b) result result := by
  cases result with
  | ok a => exact .ok rfl
  | error fault => exact .error fault

theorem SameResult.eq {α : Type} {first second : Except Fault α}
    (same : SameResult (fun a b => a = b) first second) : first = second := by
  cases same with
  | ok related => rw [related]
  | error fault => rfl

/-- Outcomes with the same result, related values, and memories that agree. -/
structure Alike {α β : Type} (own : Likeness V) (hidden : Cell) (R : α → β → Prop)
    (first : Except Fault α × Memory V) (second : Except Fault β × Memory V) : Prop where
  result : SameResult R first.1 second.1
  agree : first.2.Agree own hidden second.2

namespace Alike

variable {α β γ δ : Type} {own : Likeness V} {hidden : Cell} {R : α → β → Prop}
  {S : γ → δ → Prop} {m₁ m₂ : Memory V}

theorem bind {a : Action V α} {b : Action V β} {f : α → Action V γ} {g : β → Action V δ}
    (first : Alike own hidden R (a.outcome m₁) (b.outcome m₂))
    (next : ∀ x y m₁' m₂', a.outcome m₁ = (.ok x, m₁') → b.outcome m₂ = (.ok y, m₂') → R x y →
      m₁'.Agree own hidden m₂' → Alike own hidden S ((f x).outcome m₁') ((g y).outcome m₂')) :
    Alike own hidden S ((a >>= f).outcome m₁) ((b >>= g).outcome m₂) := by
  rw [Action.outcome_bind, Action.outcome_bind]
  cases left : a.outcome m₁ with
  | mk r₁ m₁' =>
      cases right : b.outcome m₂ with
      | mk r₂ m₂' =>
          rw [left, right] at first
          obtain ⟨result, agree⟩ := first
          cases result with
          | ok related => exact next _ _ _ _ left right related agree
          | error fault => exact ⟨.error fault, agree⟩

theorem of_ok {a b : Action V α} {value : α} (left : a.outcome m₁ = (.ok value, m₁))
    (right : b.outcome m₂ = (.ok value, m₂)) (agree : m₁.Agree own hidden m₂) :
    Alike own hidden (fun a b => a = b) (a.outcome m₁) (b.outcome m₂) := by
  rw [left, right]
  exact ⟨.ok rfl, agree⟩

theorem lift (agree : m₁.Agree own hidden m₂) (result : Except Fault α) :
    Alike own hidden (fun a b => a = b) ((Action.lift result).outcome m₁)
      ((Action.lift result).outcome m₂) :=
  ⟨.of_eq, agree⟩

theorem pure (agree : m₁.Agree own hidden m₂) (value : α) :
    Alike own hidden (fun a b => a = b) ((Pure.pure value : Action V α).outcome m₁)
      ((Pure.pure value : Action V α).outcome m₂) :=
  ⟨.ok rfl, agree⟩

theorem read {c : Cell} (agree : m₁.Agree own hidden m₂) (foreign : c ∉ own.cells)
    (visible : c ≠ hidden) :
    Alike own hidden (fun a b => a = b) ((Action.read c).outcome m₁)
      ((Action.read c).outcome m₂) := by
  have same := agree.content c foreign visible
  cases held : m₁.content c with
  | none =>
      rw [Action.outcome_read_of_none held, Action.outcome_read_of_none (same ▸ held)]
      exact ⟨.error _, agree⟩
  | some v =>
      rw [Action.outcome_read held, Action.outcome_read (same ▸ held)]
      exact ⟨.ok rfl, agree⟩

theorem store [Calculus V] {c : Cell} (agree : m₁.Agree own hidden m₂) (foreign : c ∉ own.cells)
    (visible : c ≠ hidden) (v : V) :
    Alike own hidden (fun a b => a = b) ((Action.store c v).outcome m₁)
      ((Action.store c v).outcome m₂) := by
  refine bind (Alike.read agree foreign visible) fun old _ m₁' m₂' _ _ same agree' => ?_
  subst same
  refine bind (R := fun a b => a = b) ⟨.ok rfl, agree'.put foreign _⟩ ?_
  intro _ _ _ _ _ _ _ agree''
  exact lift agree'' _

end Alike

end ProxGrad
