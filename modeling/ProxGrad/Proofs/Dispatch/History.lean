import Mathlib.Data.List.Basic
import Mathlib.Data.List.Induction
import ProxGrad.Dispatch.Registry

/-!
# Histories of a registry

What a registry holds and resolves, read off the changes that led to it. Under a key lives the
implementation that was registered there last, as long as the key was not removed since. An operator
is resolved to the live implementation of the first pair of classes in the lexicographic order of
their positions.
-/

set_option autoImplicit false

namespace ProxGrad.Registry

/-- A change of the live registrations. -/
inductive Change (C I : Type) where
  | registered (key : Key C) (implementation : I)
  | unregistered (key : Key C)
deriving DecidableEq, Repr

variable {C I : Type}

def Change.key : Change C I → Key C
  | .registered key _ => key
  | .unregistered key => key

/-- The implementation was registered under the key, and nothing changed under that key since. -/
def Live (history : List (Change C I)) (key : Key C) (implementation : I) : Prop :=
  ∃ before after, history = before ++ .registered key implementation :: after ∧
    ∀ change ∈ after, change.key ≠ key

variable {history : List (Change C I)} {key : Key C} {i : I}

theorem not_live_nil : ¬ Live [] key i := by
  rintro ⟨before, after, split, -⟩
  simp at split

theorem live_concat {change : Change C I} :
    Live (history ++ [change]) key i ↔
      change = .registered key i ∨ change.key ≠ key ∧ Live history key i := by
  constructor
  · rintro ⟨before, after, split, quiet⟩
    rcases List.eq_nil_or_concat after with rfl | ⟨earlier, last, rfl⟩
    · exact .inl (List.singleton_inj.mp (List.append_inj' split rfl).2)
    · rw [List.concat_eq_append, ← List.cons_append, ← List.append_assoc] at split
      obtain ⟨same, final⟩ := List.append_inj' split rfl
      cases List.singleton_inj.mp final
      refine .inr ⟨quiet change (by simp), before, earlier, same, fun c member => ?_⟩
      exact quiet c (by simp [member])
  · rintro (rfl | ⟨elsewhere, before, after, rfl, quiet⟩)
    · exact ⟨history, [], rfl, by simp⟩
    · refine ⟨before, after ++ [change], by simp, fun c member => ?_⟩
      rcases List.mem_append.mp member with member | member
      · exact quiet c member
      · exact List.mem_singleton.mp member ▸ elsewhere

/-! ## What a registry holds -/

variable [DecidableEq C]

def apply (r : Registry C I) : Change C I → Registry C I
  | .registered key implementation => r.register key implementation
  | .unregistered key => r.unregister key

@[simp] theorem apply_registered (r : Registry C I) (key : Key C) (i : I) :
    r.apply (.registered key i) = r.register key i := rfl

@[simp] theorem apply_unregistered (r : Registry C I) (key : Key C) :
    r.apply (.unregistered key) = r.unregister key := rfl

/-- The registry that a history leads to. -/
def replay (history : List (Change C I)) : Registry C I :=
  history.foldl apply {}

@[simp]
theorem replay_concat (history : List (Change C I)) (change : Change C I) :
    replay (history ++ [change]) = (replay history).apply change := by
  simp [replay]

theorem find?_unregister (r : Registry C I) (removed key : Key C) :
    (r.unregister removed).find? key = if removed = key then none else r.find? key := by
  simp only [find?, unregister, List.find?_filter]
  split
  case isTrue same => simp [same]
  case isFalse apart =>
    congr 2
    funext entry
    by_cases same : entry.1 = key
    · simp [same, Ne.symm apart]
    · simp [same]

theorem find?_register (r : Registry C I) (new key : Key C) (i : I) :
    (r.register new i).find? key = if new = key then some i else r.find? key := by
  by_cases same : new = key
  · simp [find?, register, same]
  · have kept := find?_unregister r new key
    simp only [find?, register, List.find?_cons, same, decide_false, if_false] at kept ⊢
    exact kept

theorem find?_replay_eq_some_iff : (replay history).find? key = some i ↔ Live history key i := by
  induction history using List.reverseRecOn with
  | nil => simpa [replay, find?] using not_live_nil
  | append_singleton earlier change ih =>
    rw [replay_concat, live_concat, ← ih]
    cases change with
    | registered new implementation =>
      rw [apply_registered, find?_register]
      by_cases same : new = key <;> simp [Change.key, same]
    | unregistered removed =>
      rw [apply_unregistered, find?_unregister]
      by_cases same : removed = key <;> simp [Change.key, same]

theorem find?_replay_eq_none_iff :
    (replay history).find? key = none ↔ ∀ i, ¬ Live history key i := by
  simp only [← find?_replay_eq_some_iff, Option.eq_none_iff_forall_ne_some, ne_eq]

/-! ## What is resolved -/

/-- A pair of classes is searched before another: its function class stands earlier, or they share
the function class and its options class stands earlier. -/
def Precedes (function options : List C) (p q : C × C) : Prop :=
  function.idxOf p.1 < function.idxOf q.1 ∨
    p.1 = q.1 ∧ options.idxOf p.2 < options.idxOf q.2

/-- The first pair of the two orders with a live registration, and its implementation. -/
structure First (history : List (Change C I)) (operator : Operator) (function options : List C)
    (f o : C) (i : I) : Prop where
  function_mem : f ∈ function
  options_mem : o ∈ options
  live : Live history ⟨operator, f, o⟩ i
  first : ∀ f' ∈ function, ∀ o' ∈ options, ∀ j, Live history ⟨operator, f', o'⟩ j →
    ¬ Precedes function options (f', o') (f, o)

theorem findSome?_eq_some_iff_idxOf {α : Type} (g : C → Option α) (l : List C) (b : α) :
    l.findSome? g = some b ↔
      ∃ a ∈ l, g a = some b ∧ ∀ a' ∈ l, l.idxOf a' < l.idxOf a → g a' = none := by
  induction l with
  | nil => simp
  | cons head tail ih =>
    rw [List.findSome?_cons]
    cases here : g head with
    | some c =>
      constructor
      · rintro ⟨⟩
        exact ⟨head, List.mem_cons_self, here, by simp⟩
      · rintro ⟨a, -, found, first⟩
        by_cases same : head = a
        · rw [← found, ← same, here]
        · have none := first head List.mem_cons_self (by simp [List.idxOf_cons_ne tail same])
          rw [here] at none
          cases none
    | none =>
      -- The head gives nothing, so positions in the list and in its tail compare alike.
      rw [ih]
      constructor
      · rintro ⟨a, member, found, first⟩
        have apart : head ≠ a := by rintro rfl; simp [here] at found
        refine ⟨a, List.mem_cons_of_mem _ member, found, fun a' member' earlier => ?_⟩
        by_cases same : head = a'
        · exact same ▸ here
        · have inside := (List.mem_cons.mp member').resolve_left (Ne.symm same)
          rw [List.idxOf_cons_ne tail same, List.idxOf_cons_ne tail apart] at earlier
          exact first a' inside (Nat.lt_of_succ_lt_succ earlier)
      · rintro ⟨a, member, found, first⟩
        have apart : head ≠ a := by rintro rfl; simp [here] at found
        refine ⟨a, (List.mem_cons.mp member).resolve_left (Ne.symm apart), found, ?_⟩
        intro a' member' earlier
        by_cases same : head = a'
        · exact same ▸ here
        · refine first a' (List.mem_cons_of_mem _ member') ?_
          rw [List.idxOf_cons_ne tail same, List.idxOf_cons_ne tail apart]
          exact Nat.succ_lt_succ earlier

variable {operator : Operator} {function options : List C}

/-- An operator is resolved to the live implementation of the first pair that has one. -/
theorem resolve?_replay_eq_some_iff :
    (replay history).resolve? operator function options = some i ↔
      ∃ f o, First history operator function options f o i := by
  simp only [resolve?, findSome?_eq_some_iff_idxOf, find?_replay_eq_some_iff,
    find?_replay_eq_none_iff, List.findSome?_eq_none_iff]
  constructor
  · rintro ⟨f, f_mem, ⟨o, o_mem, live, o_first⟩, f_first⟩
    refine ⟨f, o, f_mem, o_mem, live, ?_⟩
    rintro f' f'_mem o' o'_mem j other (earlier | ⟨same, earlier⟩)
    · exact f_first f' f'_mem earlier o' o'_mem j other
    · cases same
      exact o_first o' o'_mem earlier j other
  · rintro ⟨f, o, f_mem, o_mem, live, first⟩
    refine ⟨f, f_mem, ⟨o, o_mem, live, ?_⟩, ?_⟩
    · intro o' o'_mem earlier j other
      exact first f f_mem o' o'_mem j other (.inr ⟨rfl, earlier⟩)
    · intro f' f'_mem earlier o' o'_mem j other
      exact first f' f'_mem o' o'_mem j other (.inl earlier)

/-- An operator is not implemented exactly where no pair has a live registration. -/
theorem resolve?_replay_eq_none_iff :
    (replay history).resolve? operator function options = none ↔
      ∀ f ∈ function, ∀ o ∈ options, ∀ i, ¬ Live history ⟨operator, f, o⟩ i := by
  simp only [resolve?, List.findSome?_eq_none_iff, find?_replay_eq_none_iff]

end ProxGrad.Registry
