import ProxGrad.Proofs.Relocation

/-!
# Stores and relocation

Many actions read what they need, and then store one value into one cell: they deliver it. Such an
action stores the same wherever the cell stands, and after it the cell's old content is forgotten. A
new array is stale until something is delivered into it.
-/

set_option autoImplicit false

namespace ProxGrad.Relocation

variable {V α β : Type} [Calculus V] {ρ : Relocation V} {c : Cell} {kin : V → V → Prop}
  {stale : Set Cell} {m₁ m₂ : Memory V}

/-! ## Actions that store once -/

/-- Stores a value into a cell, copies the content if asked to, and gives a result. -/
def deliver (c : Cell) (source : V) (copies : Bool) (result : Except Fault α) : Action V α := do
  Action.store c source
  if copies then
    let _ ← Action.allocate (← Action.read c)
  Action.lift result

theorem outcome_deliver {m : Memory V} {old : V} (held : m.content c = some old) (source : V)
    (copies : Bool) (result : Except Fault α) :
    (deliver c source copies result).outcome m =
      match Calculus.store old source with
      | (v, .ok _) => (result, if copies then (m.put c v).push v else m.put c v)
      | (v, .error fault) => (.error fault, m.put c v) := by
  have stored := Action.outcome_store held source
  cases content : Calculus.store old source with
  | mk v done =>
    rw [content] at stored
    cases done with
    | error fault => exact Action.outcome_bind_of_error stored
    | ok _ =>
      rw [deliver, Action.outcome_bind_of_ok stored]
      cases copies with
      | false => rfl
      | true =>
        have held' := Memory.content_put_self held v
        rw [if_pos rfl, Action.outcome_bind_of_ok (Action.outcome_read held')]
        rfl

theorem result_deliver {m : Memory V} {old : V} (held : m.content c = some old) (source : V)
    (copies : Bool) (result : Except Fault α) :
    ((deliver c source copies result).outcome m).1 =
        (do (Calculus.store old source).2; result) ∧
      ((deliver c source copies result).outcome m).2.content c =
        some (Calculus.store old source).1 := by
  rw [outcome_deliver held]
  have put (v : V) := Memory.content_put_self held v
  cases Calculus.store old source with
  | mk v done =>
    cases done with
    | error fault => exact ⟨rfl, put v⟩
    | ok _ =>
      cases copies with
      | false => exact ⟨rfl, put v⟩
      | true => exact ⟨rfl, Memory.content_push_of_content (put v) v⟩

/-- Outcomes of actions that store one value into a cell, after they read what they need, or fail
before that. -/
inductive Delivered (ρ : Relocation V) (kin : V → V → Prop) (stale : Set Cell) (c : Cell) :
    Except Fault α × Memory V → Except Fault α × Memory V → Prop where
  | refused {fault : Fault} {m₁ m₂ : Memory V} : ρ.Matches kin stale m₁ m₂ →
    Delivered ρ kin stale c (.error fault, m₁) (.error fault, m₂)
  | stored {m₁ m₂ : Memory V} (source : V) (copies : Bool) (result : Except Fault α) :
    ρ.Matches kin stale m₁ m₂ →
    Delivered ρ kin stale c ((deliver c source copies result).outcome m₁)
      ((deliver (ρ.image c) source copies result).outcome m₂)

def Delivers (ρ : Relocation V) (kin : V → V → Prop) (stale : Set Cell) (c : Cell)
    (a b : Action V α) : Prop :=
  ∀ m₁ m₂, ρ.Matches kin stale m₁ m₂ →
    Delivered ρ kin stale c (a.outcome m₁) (b.outcome m₂)

/-- After a store, actions that go the same way from whatever was stored can be exchanged. -/
theorem outcome_store_bind_congr {m : Memory V} {k l : Action V α}
    (same : ∀ v, (m.put c v).content c = some v → k.outcome (m.put c v) = l.outcome (m.put c v))
    (source : V) :
    (Action.store c source >>= fun _ => k).outcome m =
      (Action.store c source >>= fun _ => l).outcome m := by
  cases held : m.content c with
  | none =>
    have missing : (Action.store c source).outcome m = (.error .unknownName, m) :=
      Action.outcome_bind_of_error (Action.outcome_read_of_none held)
    rw [Action.outcome_bind_of_error missing, Action.outcome_bind_of_error missing]
  | some old =>
    have stored := Action.outcome_store held source
    cases done : (Calculus.store old source).2 with
    | error fault =>
      rw [done] at stored
      rw [Action.outcome_bind_of_error stored, Action.outcome_bind_of_error stored]
    | ok _ =>
      rw [done] at stored
      rw [Action.outcome_bind_of_ok stored, Action.outcome_bind_of_ok stored]
      exact same _ (Memory.content_put_self held _)

namespace Delivers

theorem bind {a b : Action V α} {f g : α → Action V β} (first : ρ.Steady kin stale a b)
    (next : ∀ v, ρ.Delivers kin stale c (f v) (g v)) :
    ρ.Delivers kin stale c (a >>= f) (b >>= g) := by
  intro m₁ m₂ matched
  have steady := first m₁ m₂ matched
  rw [Action.outcome_bind, Action.outcome_bind]
  cases left : a.outcome m₁ with
  | mk r₁ n₁ =>
    cases right : b.outcome m₂ with
    | mk r₂ n₂ =>
      rw [left, right] at steady
      cases steady with
      | error matched => exact .refused matched
      | ok related =>
        obtain ⟨rfl, matched⟩ := related
        exact next _ n₁ n₂ matched

theorem throw (fault : Fault) :
    ρ.Delivers kin stale c (MonadExcept.throw fault : Action V α) (MonadExcept.throw fault) :=
  fun _ _ matched => .refused matched

/-- A store whose rest reads nothing that was stored. -/
theorem store (source : V) {k l : Action V α} {result : Memory V → Except Fault α}
    (left : ∀ m v, k.outcome (m.put c v) = (result m, m.put c v))
    (right : ∀ m₁ m₂, ρ.Matches kin stale m₁ m₂ → ∀ v,
      l.outcome (m₂.put (ρ.image c) v) = (result m₁, m₂.put (ρ.image c) v)) :
    ρ.Delivers kin stale c (Action.store c source >>= fun _ => k)
      (Action.store (ρ.image c) source >>= fun _ => l) := by
  intro m₁ m₂ matched
  have delivered := Delivered.stored (c := c) source false (result m₁) matched
  have first := outcome_store_bind_congr (k := k) (l := Action.lift (result m₁))
    (fun v _ => left m₁ v) source
  have second := outcome_store_bind_congr (k := l) (l := Action.lift (result m₁))
    (fun v _ => right m₁ m₂ matched v) source
  rw [first, second]
  exact delivered

theorem store_lift (source : V) (result : Except Fault α) :
    ρ.Delivers kin stale c (Action.store c source >>= fun _ => Action.lift result)
      (Action.store (ρ.image c) source >>= fun _ => Action.lift result) :=
  store source (fun _ _ => rfl) fun _ _ _ _ => rfl

theorem store_only (source : V) :
    ρ.Delivers kin stale c (Action.store c source) (Action.store (ρ.image c) source) := by
  rw [← bind_pure (Action.store c source), ← bind_pure (Action.store (ρ.image c) source)]
  exact store_lift source (.ok ())

/-- A store whose rest reads another array than the one stored into. -/
theorem store_reread (source : V) {x : Ref V} (fresh : x.Avoids stale) (apart : x.Avoids {c})
    (rest : V → Except Fault α) :
    ρ.Delivers kin stale c
      (Action.store c source >>= fun _ => Action.readRef x >>= fun p => Action.lift (rest p))
      (Action.store (ρ.image c) source >>= fun _ =>
        Action.readRef (ρ.ref x) >>= fun p => Action.lift (rest p)) := by
  have after {d : Cell} {x : Ref V} (apart : x.Avoids {d}) (m : Memory V) (v : V) :
      (Action.readRef x >>= fun p => Action.lift (rest p)).outcome (m.put d v) =
        (m.seen x >>= rest, m.put d v) := by
    rw [Action.outcome_bind, Action.outcome_readRef, Memory.seen_put apart]
    cases m.seen x <;> rfl
  have apart' : (ρ.ref x).Avoids {ρ.image c} := by
    cases x with
    | cell d => exact ρ.image_injective.ne apart
    | const p => trivial
  refine store source (fun m v => after apart m v) fun m₁ m₂ matched v => ?_
  rw [after apart', matched.seen fresh]

/-- A store whose rest copies what was stored. -/
theorem store_copy (source : V) (value : α) :
    ρ.Delivers kin stale c
      (Action.store c source >>= fun _ =>
        Action.read c >>= fun v => Action.allocate v >>= fun _ => pure value)
      (Action.store (ρ.image c) source >>= fun _ =>
        Action.read (ρ.image c) >>= fun v => Action.allocate v >>= fun _ => pure value) :=
  fun _ _ matched => .stored source true (.ok value) matched

theorem map {a b : Action V α} (delivers : ρ.Delivers kin stale c a b) (f : α → β) :
    ρ.Delivers kin stale c (a >>= fun v => pure (f v)) (b >>= fun v => pure (f v)) := by
  have mapped (d : Cell) (source : V) (copies : Bool) (result : Except Fault α) :
      (deliver d source copies result >>= fun v => pure (f v)) =
        deliver d source copies (result.map f) := by
    have last : (f <$> Action.lift result : Action V β) = Action.lift (result.map f) := by
      cases result <;> rfl
    cases copies <;> simp [deliver, last]
  intro m₁ m₂ matched
  have delivered := delivers m₁ m₂ matched
  rw [Action.outcome_bind, Action.outcome_bind]
  generalize a.outcome m₁ = r₁ at delivered
  generalize b.outcome m₂ = r₂ at delivered
  cases delivered with
  | refused matched => exact .refused matched
  | stored source copies result matched =>
    have stored := Delivered.stored (c := c) source copies (result.map f) matched
    rw [← mapped, ← mapped, Action.outcome_bind, Action.outcome_bind] at stored
    exact stored

end Delivers

/-- Whether values that are akin take every store alike: with one result, once it succeeded with one
content, and else with contents that are akin again. -/
def Absorbs (kin : V → V → Prop) : Prop :=
  ∀ v₁ v₂ source, kin v₁ v₂ → (Calculus.store v₁ source).2 = (Calculus.store v₂ source).2 ∧
    ((Calculus.store v₁ source).2 = .ok () →
      (Calculus.store v₁ source).1 = (Calculus.store v₂ source).1) ∧
    kin (Calculus.store v₁ source).1 (Calculus.store v₂ source).1

/-- What a store of one value makes of matching memories. -/
theorem coupled_store (absorbs : Absorbs kin) (member : c ∈ ρ.own) (source : V)
    (matched : ρ.Matches kin stale m₁ m₂) :
    Coupled (fun _ _ n₁ n₂ => ρ.Matches kin (stale \ {c}) n₁ n₂) (ρ.Matches kin stale)
      ((Action.store c source).outcome m₁) ((Action.store (ρ.image c) source).outcome m₂) := by
  have free : c ∉ ρ.guarded := fun inside => matched.not_own inside member
  by_cases inside : c ∈ stale
  · obtain ⟨v₁, v₂, held, held', related⟩ := matched.akin c inside
    obtain ⟨same, content, akin⟩ := absorbs v₁ v₂ source related
    rw [Action.outcome_store held, Action.outcome_store held', ← same]
    cases done : (Calculus.store v₁ source).2 with
    | error fault => exact .error (matched.put_stale inside akin)
    | ok _ =>
      rw [← content done]
      exact .ok (matched.put free _)
  · have same := matched.content c inside
    cases held : m₁.content c with
    | none =>
      have missing {m : Memory V} {d : Cell} (absent : m.content d = none) :
          (Action.store d source).outcome m = (.error .unknownName, m) :=
        Action.outcome_bind_of_error (Action.outcome_read_of_none absent)
      rw [missing held, missing (same.trans held)]
      exact .error matched
    | some v =>
      rw [Action.outcome_store held, Action.outcome_store (same.trans held)]
      have put := matched.put free (Calculus.store v source).1
      cases (Calculus.store v source).2 with
      | error fault =>
        rw [Set.sdiff_singleton_eq_self inside] at put
        exact .error put
      | ok _ => exact .ok put

/-- Storing one value makes the contents of a stale cell equal. -/
theorem Delivers.settles {a b : Action V α} (delivers : ρ.Delivers kin stale c a b)
    (absorbs : Absorbs kin) (member : c ∈ ρ.own) : ρ.Settles kin stale (stale \ {c}) a b := by
  intro m₁ m₂ fresh matched
  have delivered := delivers m₁ m₂ matched
  generalize a.outcome m₁ = r₁ at delivered
  generalize b.outcome m₂ = r₂ at delivered
  cases delivered with
  | refused matched => exact .error (matched.alike fresh)
  | @stored n₁ n₂ source copies result matched =>
    have first := (coupled_store absorbs member source matched).mono (fun _ _ _ _ same => same)
      fun _ _ matched => matched.alike fresh
    refine first.bind fun _ _ m₁ m₂ matched => ?_
    have stored : c ∉ stale \ {c} := fun inside => inside.2 rfl
    have rest : ρ.Steady kin (stale \ {c})
        (do if copies then let _ ← Action.allocate (← Action.read c)
            Action.lift result)
        (do if copies then let _ ← Action.allocate (← Action.read (ρ.image c))
            Action.lift result) := by
      cases copies with
      | false => exact .lift result
      | true => exact .bind (.read stored) fun v => .allocate v (.lift result)
    exact rest.settles m₁ m₂ (fun inside => fresh inside.1) matched

/-! ## New arrays in both memories -/

/-- Whether new arrays that are made like one value are akin, whichever cells they are in. -/
def MakesKin (ρ : Relocation V) (kin : V → V → Prop) : Prop :=
  ∀ v zeros c d, Calculus.fresh v = .ok zeros →
    kin (ρ.origin.leftover c zeros) (ρ.origin.leftover d zeros)

/-- A new array like another one is stale, and it is none of those that there were. -/
theorem coupled_freshLike (makes : ρ.MakesKin kin) {x : Ref V} (seeable : x.Avoids stale)
    (fresh : ρ.moved ∉ stale) (matched : ρ.Matches kin stale m₁ m₂) :
    Coupled (fun a b n₁ n₂ => b = ρ.image a ∧ a ∈ ρ.own ∧ a ∉ insert ρ.moved stale ∧
        x.Avoids {a} ∧ ρ.Matches kin (insert a stale) n₁ n₂) (ρ.Alike kin)
      ((Action.freshLike x).outcome m₁) ((Action.freshLike (ρ.ref x)).outcome m₂) := by
  have same := matched.seen seeable
  have read {m : Memory V} {y : Ref V} {result : Except Fault V} (seen : m.seen y = result) :
      (Action.readRef y).outcome m = (result, m) := by
    rw [Action.outcome_readRef, seen]
  cases seen : m₁.seen x with
  | error fault =>
    have refused {m : Memory V} {y : Ref V} (seen : m.seen y = .error fault) :
        (Action.freshLike y).outcome m = (.error fault, m) :=
      Action.outcome_bind_of_error (read seen)
    rw [refused seen, refused (same.trans seen)]
    exact .error (matched.alike fresh)
  | ok v =>
    cases zeros : Calculus.fresh v with
    | error fault =>
      have refused {m : Memory V} {y : Ref V} (seen : m.seen y = .ok v) :
          (Action.freshLike y).outcome m = (.error fault, m) := by
        rw [Action.freshLike, Action.outcome_bind_of_ok (read seen), zeros]
        exact Action.outcome_bind_of_error (Action.outcome_lift _ m)
      rw [refused seen, refused (same.trans seen)]
      exact .error (matched.alike fresh)
    | ok z =>
      rw [Action.outcome_freshLike (read seen) zeros,
        Action.outcome_freshLike (read (same.trans seen)) zeros, matched.leftover,
        matched.leftover']
      exact .ok ⟨matched.image_next.symm, matched.next_own, matched.next_new,
        Memory.avoids_next_of_seen seen, matched.push_stale (makes v z _ _ zeros)⟩

end ProxGrad.Relocation
