import ProxGrad.Dispatch.Linearization

/-!
# What a merge keeps

A merge that succeeds keeps the order of every list that it was given, has no element that none of
them has, and repeats none. So a class stands before its ancestors wherever it is an ancestor
itself.
-/

set_option autoImplicit false

namespace ProxGrad.Linearization

variable {α : Type} [DecidableEq α] {lists : List (List α)} {order list : List α} {a b : α}

theorem not_mem_tail_of_candidate? (chosen : candidate? lists = some a) :
    ∀ list ∈ lists, a ∉ list.tail := by
  intro list member
  have eligible := List.find?_some chosen
  simpa using List.all_eq_true.mp eligible list member

theorem mem_flatten_of_candidate? (chosen : candidate? lists = some a) : a ∈ lists.flatten := by
  obtain ⟨list, member, head⟩ := List.mem_filterMap.mp (List.mem_of_find?_eq_some chosen)
  exact List.mem_flatten.mpr ⟨list, member, List.mem_of_mem_head? head⟩

theorem mem_strip_iff :
    list ∈ strip a lists ↔
      list ≠ [] ∧ ∃ old ∈ lists, (if old.head? = some a then old.tail else old) = list := by
  simp [strip, and_comm]

/-- What is left of a list after a step keeps its order, and only its head can be gone. -/
theorem sublist_cons_of_strip (kept : ∀ list ∈ strip a lists, list.Sublist order)
    (member : list ∈ lists) : list.Sublist (a :: order) := by
  cases list with
  | nil => exact List.nil_sublist _
  | cons b rest =>
      by_cases same : b = a
      · subst same
        refine List.Sublist.cons_cons b ?_
        cases rest with
        | nil => exact List.nil_sublist _
        | cons c rest => exact kept _ (mem_strip_iff.mpr ⟨by simp, _, member, by simp⟩)
      · have left : b :: rest ∈ strip a lists :=
          mem_strip_iff.mpr ⟨by simp, _, member, by simp [same]⟩
        exact (kept _ left).cons a

theorem mem_flatten_of_strip (member : b ∈ (strip a lists).flatten) : b ∈ lists.flatten := by
  obtain ⟨list, among, inside⟩ := List.mem_flatten.mp member
  obtain ⟨_, old, known, rfl⟩ := mem_strip_iff.mp among
  refine List.mem_flatten.mpr ⟨old, known, ?_⟩
  by_cases head : old.head? = some a
  · rw [if_pos head] at inside
    exact List.mem_of_mem_tail inside
  · rwa [if_neg head] at inside

/-- A candidate is gone after its step: it was in no tail, and it is at no head any more. -/
theorem not_mem_flatten_strip (chosen : candidate? lists = some a) :
    a ∉ (strip a lists).flatten := by
  intro member
  obtain ⟨list, among, inside⟩ := List.mem_flatten.mp member
  obtain ⟨_, old, known, rfl⟩ := mem_strip_iff.mp among
  have outside := not_mem_tail_of_candidate? chosen old known
  by_cases head : old.head? = some a
  · rw [if_pos head] at inside
    exact outside inside
  · rw [if_neg head] at inside
    cases old with
    | nil => cases inside
    | cons b rest =>
        rcases List.mem_cons.mp inside with rfl | later
        · exact head rfl
        · exact outside later

/-! ## Merges -/

/-- The steps of a merge that succeeds. -/
inductive Merges : List (List α) → List α → Prop where
  | done : Merges [] []
  | step {lists : List (List α)} {a : α} {rest : List α} :
      candidate? lists = some a → Merges (strip a lists) rest → Merges lists (a :: rest)

theorem merges_of_mergeWithin {fuel : Nat} (merged : mergeWithin fuel lists = some order) :
    Merges lists order := by
  induction fuel generalizing lists order with
  | zero =>
      cases lists with
      | nil =>
          cases merged
          exact .done
      | cons first others => cases merged
  | succ fuel ih =>
      cases lists with
      | nil =>
          cases merged
          exact .done
      | cons first others =>
          simp only [mergeWithin] at merged
          cases chosen : candidate? (first :: others) with
          | none =>
              rw [chosen] at merged
              cases merged
          | some a =>
              rw [chosen] at merged
              obtain ⟨rest, later, rfl⟩ := Option.map_eq_some_iff.mp merged
              exact .step chosen (ih later)

theorem Merges.sublist (merges : Merges lists order) : ∀ list ∈ lists, list.Sublist order := by
  induction merges with
  | done =>
      intro list member
      cases member
  | step _ _ ih => exact fun list member => sublist_cons_of_strip ih member

theorem Merges.mem_flatten (merges : Merges lists order) : ∀ b ∈ order, b ∈ lists.flatten := by
  induction merges with
  | done =>
      intro b member
      cases member
  | step chosen _ ih =>
      intro b member
      rcases List.mem_cons.mp member with rfl | member
      · exact mem_flatten_of_candidate? chosen
      · exact mem_flatten_of_strip (ih b member)

theorem Merges.nodup (merges : Merges lists order) : order.Nodup := by
  induction merges with
  | done => exact List.nodup_nil
  | @step _ a _ chosen later ih =>
      refine List.nodup_cons.mpr ⟨fun member => ?_, ih⟩
      exact not_mem_flatten_strip chosen (later.mem_flatten a member)

theorem sublist_of_merge? (merged : merge? lists = some order) (member : list ∈ lists) :
    list.Sublist order := by
  cases list with
  | nil => exact List.nil_sublist _
  | cons b rest =>
      exact (merges_of_mergeWithin merged).sublist _ (List.mem_filter.mpr ⟨member, rfl⟩)

theorem exists_mem_of_merge? (merged : merge? lists = some order) (member : b ∈ order) :
    ∃ list ∈ lists, b ∈ list := by
  obtain ⟨list, among, inside⟩ :=
    List.mem_flatten.mp ((merges_of_mergeWithin merged).mem_flatten b member)
  exact ⟨list, (List.mem_filter.mp among).1, inside⟩

theorem nodup_of_merge? (merged : merge? lists = some order) : order.Nodup :=
  (merges_of_mergeWithin merged).nodup

end ProxGrad.Linearization
