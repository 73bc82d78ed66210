import Mathlib.Order.BooleanAlgebra.Set
import ProxGrad.Proofs.Action

/-!
# Relocation

A computation that stores into a given array is compared with the same computation on an array of
its own, which was allocated right before. The given array of the first memory corresponds to the
new one of the second, and every cell allocated later stands one place farther on. Cells whose
content does not correspond yet, since nothing was stored into them, are stale: they may be stored
into, and may be read only after that.
-/

set_option autoImplicit false

namespace ProxGrad

variable {V α β γ δ : Type}

/-- Outcomes that succeed in a related way, or fail with one fault and related memories. -/
inductive Coupled (P : α → β → Memory V → Memory V → Prop) (E : Memory V → Memory V → Prop) :
    Except Fault α × Memory V → Except Fault β × Memory V → Prop where
  | ok {a : α} {b : β} {m₁ m₂ : Memory V} : P a b m₁ m₂ → Coupled P E (.ok a, m₁) (.ok b, m₂)
  | error {fault : Fault} {m₁ m₂ : Memory V} :
    E m₁ m₂ → Coupled P E (.error fault, m₁) (.error fault, m₂)

namespace Coupled

variable {P P' : α → β → Memory V → Memory V → Prop} {Q : γ → δ → Memory V → Memory V → Prop}
  {E E' : Memory V → Memory V → Prop} {m₁ m₂ : Memory V}

theorem bind {a : Action V α} {b : Action V β} {f : α → Action V γ} {g : β → Action V δ}
    (first : Coupled P E (a.outcome m₁) (b.outcome m₂))
    (next : ∀ x y n₁ n₂, P x y n₁ n₂ → Coupled Q E ((f x).outcome n₁) ((g y).outcome n₂)) :
    Coupled Q E ((a >>= f).outcome m₁) ((b >>= g).outcome m₂) := by
  rw [Action.outcome_bind, Action.outcome_bind]
  cases left : a.outcome m₁ with
  | mk r₁ n₁ =>
    cases right : b.outcome m₂ with
    | mk r₂ n₂ =>
      rw [left, right] at first
      cases first with
      | ok related => exact next _ _ _ _ related
      | error related => exact .error related

theorem mono {r₁ : Except Fault α × Memory V} {r₂ : Except Fault β × Memory V}
    (coupled : Coupled P E r₁ r₂) (success : ∀ a b n₁ n₂, P a b n₁ n₂ → P' a b n₁ n₂)
    (failure : ∀ n₁ n₂, E n₁ n₂ → E' n₁ n₂) : Coupled P' E' r₁ r₂ := by
  cases coupled with
  | ok related => exact .ok (success _ _ _ _ related)
  | error related => exact .error (failure _ _ related)

end Coupled

/-- A cell that stands behind all others in a second memory. -/
structure Relocation (V : Type) where
  moved : Cell
  /-- The number of cells at the start, so the index of the moved cell's new place. -/
  base : Nat
  moved_lt : moved.index < base
  /-- Cells that are not written to. -/
  guarded : Set Cell
  /-- What the guarded cells hold. -/
  origin : Memory V

namespace Relocation

/-- The place in the second memory of a cell of the first. -/
def image (ρ : Relocation V) (c : Cell) : Cell :=
  if c = ρ.moved then ⟨ρ.base⟩ else if c.index < ρ.base then c else ⟨c.index + 1⟩

def ref (ρ : Relocation V) : Ref V → Ref V
  | .cell c => .cell (ρ.image c)
  | .const v => .const v

/-- The moved cell, and the cells allocated since. -/
def own (ρ : Relocation V) : Set Cell :=
  {c | c = ρ.moved ∨ ρ.base ≤ c.index}

variable {ρ : Relocation V} {c d : Cell}

theorem moved_own (ρ : Relocation V) : ρ.moved ∈ ρ.own :=
  .inl rfl

@[simp] theorem image_moved (ρ : Relocation V) : ρ.image ρ.moved = ⟨ρ.base⟩ := by
  simp [image]

theorem image_of_not_own (foreign : c ∉ ρ.own) : ρ.image c = c := by
  obtain ⟨still, below⟩ := not_or.mp foreign
  rw [image, if_neg still, if_pos (Nat.lt_of_not_le below)]

theorem image_of_base_le (beyond : ρ.base ≤ c.index) : ρ.image c = ⟨c.index + 1⟩ := by
  have still : c ≠ ρ.moved := by
    rintro rfl
    exact Nat.not_lt_of_le beyond ρ.moved_lt
  rw [image, if_neg still, if_neg (Nat.not_lt_of_le beyond)]

theorem index_image (ρ : Relocation V) (c : Cell) : (ρ.image c).index =
    if c.index = ρ.moved.index then ρ.base
    else if c.index < ρ.base then c.index else c.index + 1 := by
  by_cases same : c = ρ.moved
  · rw [same, image_moved, if_pos rfl]
  · have apart : c.index ≠ ρ.moved.index := fun index => same (congrArg Cell.mk index)
    rw [image, if_neg same, if_neg apart, apply_ite Cell.index]

theorem image_injective (ρ : Relocation V) : Function.Injective ρ.image := by
  intro c d same
  have index := congrArg Cell.index same
  have below := ρ.moved_lt
  rw [index_image, index_image] at index
  exact congrArg Cell.mk (show c.index = d.index by split_ifs at index <;> omega)

/-! ## Memories that correspond -/

/-- Memories that agree but for the moved cell and the cells allocated since, which are as many. -/
structure Agree (ρ : Relocation V) (m₁ m₂ : Memory V) : Prop where
  large : ρ.base ≤ m₁.cells.size
  size : m₂.cells.size = m₁.cells.size + 1
  foreign : ∀ c, c ∉ ρ.own → m₂.content c = m₁.content c
  kept : ∀ c ∈ ρ.guarded, c ∉ ρ.own ∧ m₁.content c = ρ.origin.content c
  calls : m₂.calls = m₁.calls
  reports : m₂.reports = m₁.reports
  leftover : m₁.leftover = ρ.origin.leftover
  leftover' : m₂.leftover = ρ.origin.leftover

/-- Memories that correspond cell by cell. The contents of stale cells are only akin. -/
structure Matches (ρ : Relocation V) (kin : V → V → Prop) (stale : Set Cell)
    (m₁ m₂ : Memory V) : Prop extends ρ.Agree m₁ m₂ where
  stale_own : stale ⊆ ρ.own
  content : ∀ c, c ∉ stale → m₂.content (ρ.image c) = m₁.content c
  akin : ∀ c ∈ stale, ∃ v₁ v₂, m₁.content c = some v₁ ∧ m₂.content (ρ.image c) = some v₂ ∧
    kin v₁ v₂

variable {kin : V → V → Prop} {stale : Set Cell} {m₁ m₂ : Memory V}

theorem content_put_map (m : Memory V) (c : Cell) (v : V) :
    (m.put c v).content c = (m.content c).map fun _ => v := by
  by_cases bound : c.index < m.cells.size <;> simp [Memory.put, Memory.content, bound]

theorem content_push_of_ne {m : Memory V} (different : c ≠ m.next) (v : V) :
    (m.push v).content c = m.content c := by
  have apart : c.index ≠ m.cells.size := fun same => different (congrArg Cell.mk same)
  simp [Memory.push, Memory.content, Array.getElem?_push, apart]

namespace Agree

theorem not_own (agree : ρ.Agree m₁ m₂) (member : c ∈ ρ.guarded) : c ∉ ρ.own :=
  (agree.kept c member).1

/-- Any values may be put into a cell that is compared no more. -/
theorem put_own (agree : ρ.Agree m₁ m₂) (member : c ∈ ρ.own) (v₁ v₂ : V) :
    ρ.Agree (m₁.put c v₁) (m₂.put (ρ.image c) v₂) where
  large := by rw [Memory.size_put]; exact agree.large
  size := by rw [Memory.size_put, Memory.size_put]; exact agree.size
  foreign := by
    intro d outside
    have apart : d ≠ c := fun same => outside (same ▸ member)
    have apart' : d ≠ ρ.image c := by
      rw [← image_of_not_own outside]
      exact ρ.image_injective.ne apart
    rw [Memory.content_put_of_ne apart, Memory.content_put_of_ne apart', agree.foreign d outside]
  kept := by
    intro d inside
    have apart : d ≠ c := fun same => agree.not_own inside (same ▸ member)
    rw [Memory.content_put_of_ne apart]
    exact agree.kept d inside
  calls := agree.calls
  reports := agree.reports
  leftover := agree.leftover
  leftover' := agree.leftover'

theorem put_foreign (agree : ρ.Agree m₁ m₂) (outside : c ∉ ρ.own) (free : c ∉ ρ.guarded) (v : V) :
    ρ.Agree (m₁.put c v) (m₂.put c v) where
  large := by rw [Memory.size_put]; exact agree.large
  size := by rw [Memory.size_put, Memory.size_put]; exact agree.size
  foreign := by
    intro d outside'
    by_cases same : d = c
    · rw [same, content_put_map, content_put_map, agree.foreign c outside]
    · rw [Memory.content_put_of_ne same, Memory.content_put_of_ne same, agree.foreign d outside']
  kept := by
    intro d inside
    have apart : d ≠ c := fun same => free (same ▸ inside)
    rw [Memory.content_put_of_ne apart]
    exact agree.kept d inside
  calls := agree.calls
  reports := agree.reports
  leftover := agree.leftover
  leftover' := agree.leftover'

theorem image_next (agree : ρ.Agree m₁ m₂) : ρ.image m₁.next = m₂.next := by
  have beyond : ρ.base ≤ m₁.next.index := agree.large
  rw [image_of_base_le beyond, Memory.next, Memory.next, agree.size]

theorem next_own (agree : ρ.Agree m₁ m₂) : m₁.next ∈ ρ.own :=
  .inr agree.large

theorem push (agree : ρ.Agree m₁ m₂) (v₁ v₂ : V) : ρ.Agree (m₁.push v₁) (m₂.push v₂) where
  large := by rw [Memory.size_push]; exact Nat.le_succ_of_le agree.large
  size := by rw [Memory.size_push, Memory.size_push, agree.size]
  foreign := by
    intro d outside
    have below : d.index < ρ.base := Nat.lt_of_not_le fun beyond => outside (.inr beyond)
    have bound : d.index < m₁.cells.size := Nat.lt_of_lt_of_le below agree.large
    have bound' : d.index < m₂.cells.size := by rw [agree.size]; exact Nat.lt_succ_of_lt bound
    rw [Memory.content_push_of_lt bound, Memory.content_push_of_lt bound', agree.foreign d outside]
  kept := by
    intro d inside
    have outside := agree.not_own inside
    have below : d.index < ρ.base := Nat.lt_of_not_le fun beyond => outside (.inr beyond)
    rw [Memory.content_push_of_lt (Nat.lt_of_lt_of_le below agree.large)]
    exact agree.kept d inside
  calls := agree.calls
  reports := agree.reports
  leftover := agree.leftover
  leftover' := agree.leftover'

end Agree

namespace Matches

variable (matched : ρ.Matches kin stale m₁ m₂)
include matched

/-- A cell that is allocated next is none of those that there are. -/
theorem next_new : m₁.next ∉ insert ρ.moved stale := by
  rintro (same | member)
  · have below : m₁.next.index < ρ.base := same ▸ ρ.moved_lt
    exact Nat.not_lt_of_le matched.large below
  · obtain ⟨v₁, v₂, held, -, -⟩ := matched.akin _ member
    exact Memory.ne_next_of_content held rfl

theorem agree_put (free : c ∉ ρ.guarded) (v : V) :
    ρ.Agree (m₁.put c v) (m₂.put (ρ.image c) v) := by
  by_cases member : c ∈ ρ.own
  · exact matched.put_own member v v
  · rw [image_of_not_own member]
    exact matched.put_foreign member free v

/-- A cell into which one value was put is no longer stale. -/
theorem put (free : c ∉ ρ.guarded) (v : V) :
    ρ.Matches kin (stale \ {c}) (m₁.put c v) (m₂.put (ρ.image c) v) where
  toAgree := matched.agree_put free v
  stale_own := Set.sdiff_subset.trans matched.stale_own
  content := by
    intro d fresh
    by_cases same : d = c
    · subst same
      rw [content_put_map, content_put_map]
      by_cases member : d ∈ stale
      · obtain ⟨v₁, v₂, held, held', -⟩ := matched.akin d member
        rw [held, held']
        rfl
      · rw [matched.content d member]
    · rw [Memory.content_put_of_ne same, Memory.content_put_of_ne (ρ.image_injective.ne same),
        matched.content d fun member => fresh ⟨member, same⟩]
  akin := by
    rintro d ⟨member, different⟩
    rw [Memory.content_put_of_ne different,
      Memory.content_put_of_ne (ρ.image_injective.ne different)]
    exact matched.akin d member

/-- A stale cell stays stale where values that are only akin are put into it. -/
theorem put_stale (member : c ∈ stale) {v₁ v₂ : V} (related : kin v₁ v₂) :
    ρ.Matches kin stale (m₁.put c v₁) (m₂.put (ρ.image c) v₂) where
  toAgree := matched.put_own (matched.stale_own member) v₁ v₂
  stale_own := matched.stale_own
  content := by
    intro d fresh
    have different : d ≠ c := fun same => fresh (same ▸ member)
    rw [Memory.content_put_of_ne different,
      Memory.content_put_of_ne (ρ.image_injective.ne different), matched.content d fresh]
  akin := by
    intro d inside
    obtain ⟨u₁, u₂, held, held', akin⟩ := matched.akin d inside
    by_cases same : d = c
    · subst same
      exact ⟨v₁, v₂, Memory.content_put_self held v₁, Memory.content_put_self held' v₂, related⟩
    · rw [Memory.content_put_of_ne same, Memory.content_put_of_ne (ρ.image_injective.ne same)]
      exact ⟨u₁, u₂, held, held', akin⟩

theorem content_push (fresh : c ∉ stale) (different : c ≠ m₁.next) (v₁ v₂ : V) :
    (m₂.push v₂).content (ρ.image c) = (m₁.push v₁).content c := by
  have different' : ρ.image c ≠ m₂.next := by
    rw [← matched.image_next]
    exact ρ.image_injective.ne different
  rw [content_push_of_ne different, content_push_of_ne different', matched.content c fresh]

/-- A new cell of both memories, which is stale if its contents are only akin. -/
theorem push_stale {v₁ v₂ : V} (related : kin v₁ v₂) :
    ρ.Matches kin (insert m₁.next stale) (m₁.push v₁) (m₂.push v₂) where
  toAgree := matched.push v₁ v₂
  stale_own := Set.insert_subset matched.next_own matched.stale_own
  content := by
    intro d fresh
    obtain ⟨different, fresh⟩ := not_or.mp fresh
    exact matched.content_push fresh different v₁ v₂
  akin := by
    rintro d (rfl | member)
    · rw [matched.image_next]
      exact ⟨v₁, v₂, Memory.content_push_next _ _, Memory.content_push_next _ _, related⟩
    · obtain ⟨u₁, u₂, held, held', related⟩ := matched.akin d member
      exact ⟨u₁, u₂, Memory.content_push_of_content held _, Memory.content_push_of_content held' _,
        related⟩

theorem push (v : V) : ρ.Matches kin stale (m₁.push v) (m₂.push v) where
  toAgree := matched.toAgree.push v v
  stale_own := matched.stale_own
  content := by
    intro d fresh
    by_cases same : d = m₁.next
    · rw [same, matched.image_next, Memory.content_push_next, Memory.content_push_next]
    · exact matched.content_push fresh same v v
  akin := by
    intro d member
    obtain ⟨u₁, u₂, held, held', related⟩ := matched.akin d member
    exact ⟨u₁, u₂, Memory.content_push_of_content held _, Memory.content_push_of_content held' _,
      related⟩

theorem record (call : Call V) : ρ.Matches kin stale { m₁ with calls := m₁.calls.push call }
    { m₂ with calls := m₂.calls.push call } where
  toAgree := { matched.toAgree with calls := congrArg (Array.push · call) matched.calls }
  stale_own := matched.stale_own
  content := matched.content
  akin := matched.akin

theorem report (n : Nat) (value : V) :
    ρ.Matches kin stale { m₁ with reports := m₁.reports.push (n, value) }
      { m₂ with reports := m₂.reports.push (n, value) } where
  toAgree := { matched.toAgree with reports := congrArg (Array.push · (n, value)) matched.reports }
  stale_own := matched.stale_own
  content := matched.content
  akin := matched.akin

end Matches

/-- Memories that match, and at the moved cell also in what it holds. -/
def Alike (ρ : Relocation V) (kin : V → V → Prop) (m₁ m₂ : Memory V) : Prop :=
  ∃ stale, ρ.moved ∉ stale ∧ ρ.Matches kin stale m₁ m₂

theorem Matches.alike (matched : ρ.Matches kin stale m₁ m₂) (fresh : ρ.moved ∉ stale) :
    ρ.Alike kin m₁ m₂ :=
  ⟨stale, fresh, matched⟩

end Relocation

/-- A reference that is not to one of these cells. -/
def Ref.Avoids (cells : Set Cell) : Ref V → Prop
  | .cell c => c ∉ cells
  | .const _ => True

theorem Ref.Avoids.insert {x : Ref V} {c : Cell} {cells : Set Cell} (avoids : x.Avoids cells)
    (apart : x.Avoids {c}) : x.Avoids (insert c cells) := by
  cases x with
  | cell d => exact not_or.mpr ⟨apart, avoids⟩
  | const v => trivial

/-- What a reference reads. -/
def Memory.seen (m : Memory V) : Ref V → Except Fault V
  | .cell c =>
    match m.content c with
    | some v => .ok v
    | none => .error .unknownName
  | .const v => .ok v

theorem Action.outcome_readRef (x : Ref V) (m : Memory V) :
    (readRef x).outcome m = (m.seen x, m) := by
  cases x with
  | const v => rfl
  | cell c =>
    rw [Memory.seen]
    cases held : m.content c with
    | none => exact outcome_read_of_none held
    | some v => exact outcome_read held

theorem Memory.avoids_next_of_seen {m : Memory V} {x : Ref V} {v : V} (seen : m.seen x = .ok v) :
    x.Avoids {m.next} := by
  cases x with
  | const v => trivial
  | cell c =>
    rw [Memory.seen] at seen
    split at seen
    case h_1 held => exact Memory.ne_next_of_content held
    case h_2 => cases seen

theorem Memory.seen_put {x : Ref V} {c : Cell} (apart : x.Avoids {c}) (m : Memory V) (v : V) :
    (m.put c v).seen x = m.seen x := by
  cases x with
  | const v => rfl
  | cell d => rw [seen, seen, content_put_of_ne apart]

namespace Relocation

variable {ρ : Relocation V} {c : Cell} {kin : V → V → Prop} {stale : Set Cell} {m₁ m₂ : Memory V}

theorem Matches.seen (matched : ρ.Matches kin stale m₁ m₂) {x : Ref V} (fresh : x.Avoids stale) :
    m₂.seen (ρ.ref x) = m₁.seen x := by
  cases x with
  | const v => rfl
  | cell c => rw [ref, Memory.seen, Memory.seen, matched.content c fresh]

theorem ref_of_avoids {x : Ref V} (foreign : x.Avoids ρ.own) : ρ.ref x = x := by
  cases x with
  | cell c => exact congrArg Ref.cell (image_of_not_own foreign)
  | const v => rfl

/-! ## Actions that go the same way -/

/-- Actions that give the same and keep memories matching, also where they fail. -/
def Steady (ρ : Relocation V) (kin : V → V → Prop) (stale : Set Cell) (a b : Action V α) : Prop :=
  ∀ m₁ m₂, ρ.Matches kin stale m₁ m₂ →
    Coupled (fun x y n₁ n₂ => x = y ∧ ρ.Matches kin stale n₁ n₂) (ρ.Matches kin stale)
      (a.outcome m₁) (b.outcome m₂)

namespace Steady

theorem bind {a b : Action V α} {f g : α → Action V β} (first : ρ.Steady kin stale a b)
    (next : ∀ v, ρ.Steady kin stale (f v) (g v)) : ρ.Steady kin stale (a >>= f) (b >>= g) := by
  intro m₁ m₂ matched
  refine Coupled.bind (first m₁ m₂ matched) ?_
  rintro x _ n₁ n₂ ⟨rfl, matched⟩
  exact next x n₁ n₂ matched

theorem pure (v : α) : ρ.Steady kin stale (Pure.pure v) (Pure.pure v) :=
  fun _ _ matched => .ok ⟨rfl, matched⟩

theorem throw (fault : Fault) :
    ρ.Steady kin stale (MonadExcept.throw fault : Action V α) (MonadExcept.throw fault) :=
  fun _ _ matched => .error matched

theorem lift (result : Except Fault α) :
    ρ.Steady kin stale (Action.lift result) (Action.lift result) := by
  intro m₁ m₂ matched
  cases result with
  | ok v => exact .ok ⟨rfl, matched⟩
  | error fault => exact .error matched

theorem allocate (v : V) {a b : Action V α} (steady : ρ.Steady kin stale a b) :
    ρ.Steady kin stale (Action.allocate v >>= fun _ => a) (Action.allocate v >>= fun _ => b) :=
  fun _ _ matched => steady _ _ (matched.push v)

theorem record (call : Call V) :
    ρ.Steady kin stale (Action.record call) (Action.record call) :=
  fun _ _ matched => .ok ⟨rfl, matched.record call⟩

theorem report (n : Nat) (value : V) :
    ρ.Steady kin stale (Action.report n value) (Action.report n value) :=
  fun _ _ matched => .ok ⟨rfl, matched.report n value⟩

theorem readRef {x : Ref V} (fresh : x.Avoids stale) :
    ρ.Steady kin stale (Action.readRef x) (Action.readRef (ρ.ref x)) := by
  intro m₁ m₂ matched
  have lifted := lift (m₁.seen x) m₁ m₂ matched
  rw [Action.outcome_readRef, Action.outcome_readRef, matched.seen fresh]
  exact lifted

theorem read (fresh : c ∉ stale) :
    ρ.Steady kin stale (Action.read c) (Action.read (ρ.image c)) :=
  readRef (x := .cell c) fresh

theorem readRef_foreign {x : Ref V} (foreign : x.Avoids ρ.own) :
    ρ.Steady kin stale (Action.readRef x) (Action.readRef x) := by
  intro m₁ m₂ matched
  have fresh : x.Avoids stale := by
    cases x with
    | cell c => exact fun member => foreign (matched.stale_own member)
    | const v => trivial
  have steady := readRef fresh m₁ m₂ matched
  rwa [ref_of_avoids foreign] at steady

theorem write_foreign (foreign : c ∉ ρ.own) (free : c ∉ ρ.guarded) (v : V) :
    ρ.Steady kin stale (Action.write c v) (Action.write c v) := by
  intro m₁ m₂ matched
  have put := matched.put free v
  have outside : stale \ {c} = stale :=
    Set.sdiff_singleton_eq_self fun member => foreign (matched.stale_own member)
  rw [image_of_not_own foreign, outside] at put
  exact .ok ⟨rfl, put⟩

end Steady

/-- Actions that give the same and take memories with some stale cells to memories with others. The
moved cell is not stale at first, nor where they fail. -/
def Settles (ρ : Relocation V) (kin : V → V → Prop) (before after : Set Cell)
    (a b : Action V α) : Prop :=
  ∀ m₁ m₂, ρ.moved ∉ before → ρ.Matches kin before m₁ m₂ →
    Coupled (fun x y n₁ n₂ => x = y ∧ ρ.Matches kin after n₁ n₂) (ρ.Alike kin) (a.outcome m₁)
      (b.outcome m₂)

theorem Steady.settles {a b : Action V α} (steady : ρ.Steady kin stale a b) :
    ρ.Settles kin stale stale a b :=
  fun m₁ m₂ fresh matched =>
    (steady m₁ m₂ matched).mono (fun _ _ _ _ same => same) fun _ _ matched => matched.alike fresh

namespace Settles

variable {after : Set Cell}

theorem bind {a b : Action V α} {f g : α → Action V β} (first : ρ.Settles kin stale stale a b)
    (next : ∀ v, ρ.Settles kin stale after (f v) (g v)) :
    ρ.Settles kin stale after (a >>= f) (b >>= g) := by
  intro m₁ m₂ fresh matched
  refine (first m₁ m₂ fresh matched).bind ?_
  rintro x _ n₁ n₂ ⟨rfl, matched⟩
  exact next x n₁ n₂ fresh matched

theorem throw (fault : Fault) :
    ρ.Settles kin stale after (MonadExcept.throw fault : Action V α) (MonadExcept.throw fault) :=
  fun _ _ fresh matched => .error (matched.alike fresh)

end Settles

/-! ## A new array beside a given one -/

/-- The relocation of a cell to the end of a memory. -/
def toEnd (m : Memory V) (c : Cell) (bound : c.index < m.cells.size) (guarded : Set Cell) :
    Relocation V :=
  { moved := c, base := m.cells.size, moved_lt := bound, guarded, origin := m }

theorem image_toEnd (m : Memory V) (c : Cell) (bound : c.index < m.cells.size)
    (guarded : Set Cell) :
    (toEnd m c bound guarded).image c = m.next :=
  image_moved (toEnd m c bound guarded)

theorem avoids_own_of_seen {m : Memory V} {c : Cell} {bound : c.index < m.cells.size}
    {guarded : Set Cell} {x : Ref V} {v : V} (read : m.seen x = .ok v) (apart : x.Avoids {c}) :
    x.Avoids (toEnd m c bound guarded).own := by
  cases x with
  | const v => trivial
  | cell d =>
    rw [Memory.seen] at read
    split at read
    case h_1 held => exact not_or.mpr ⟨apart, Nat.not_le.mpr (Memory.index_lt_of_content held)⟩
    case h_2 => cases read

/-- A memory and the same one with a new array, whatever the two arrays hold. -/
theorem matches_push {m : Memory V} {v z : V} {guarded : Set Cell} (held : m.content c = some v)
    (kept : ∀ d ∈ guarded, d ≠ c ∧ d.index < m.cells.size) (related : kin v z) :
    (toEnd m c (Memory.index_lt_of_content held) guarded).Matches kin {c} m (m.push z) := by
  generalize bound : Memory.index_lt_of_content held = below
  have outside {d : Cell} (apart : d ≠ c) (below' : d.index < m.cells.size) :
      d ∉ (toEnd m c below guarded).own :=
    not_or.mpr ⟨apart, Nat.not_le.mpr below'⟩
  exact {
    large := Nat.le_refl _
    size := Memory.size_push m z
    foreign := fun d foreign =>
      Memory.content_push_of_lt (Nat.lt_of_not_le fun beyond => foreign (.inr beyond)) z
    kept := fun d member => ⟨outside (kept d member).1 (kept d member).2, rfl⟩
    calls := rfl
    reports := rfl
    leftover := rfl
    leftover' := rfl
    stale_own := fun d member => .inl member
    content := by
      intro d fresh
      rcases Nat.lt_or_ge d.index m.cells.size with below' | beyond
      · rw [image_of_not_own (outside fresh below'), Memory.content_push_of_lt below']
      · have place : (toEnd m c below guarded).image d = ⟨d.index + 1⟩ := image_of_base_le beyond
        rw [place]
        simp [Memory.content, Memory.push, beyond]
    akin := by
      rintro d rfl
      refine ⟨v, z, held, ?_, related⟩
      rw [image_toEnd]
      exact Memory.content_push_next m z }

end Relocation

end ProxGrad
