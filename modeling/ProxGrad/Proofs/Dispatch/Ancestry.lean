import Mathlib.Data.List.Sublists
import ProxGrad.Dispatch.ClassTable
import ProxGrad.Proofs.Dispatch.Linearization

/-!
# Search orders of classes

A table of classes grows by subclasses of classes that it has. In every such table the search order
of a class starts with the class itself and keeps the order of each of its ancestors, so that a
class stands before its own ancestors in every order that has it.
-/

set_option autoImplicit false

namespace ProxGrad.ClassTable

/-- The tables that definitions of subclasses lead to. -/
inductive Built : ClassTable → Prop where
  | initial : Built .initial
  | extend {t t' : ClassTable} {name : String} {parents : List ClassId} {own : ClassId} :
      Built t → (∀ p ∈ parents, p.index < t.classes.size) →
      t.extend? name parents = some (t', own) → Built t'

/-- A table with search orders that agree with each other. -/
structure Coherent (t : ClassTable) : Prop where
  inhabited : 0 < t.classes.size
  root : t.ancestors .objectClass = [.objectClass]
  first : ∀ c, c.index < t.classes.size → ∃ rest, t.ancestors c = c :: rest
  known : ∀ c, c.index < t.classes.size → ∀ a ∈ t.ancestors c, a.index < t.classes.size
  nodup : ∀ c, c.index < t.classes.size → (t.ancestors c).Nodup
  inherits : ∀ c, c.index < t.classes.size → ∀ a ∈ t.ancestors c,
    (t.ancestors a).Sublist (t.ancestors c)

theorem coherent_initial : Coherent initial where
  inhabited := by decide
  root := by decide
  first := by
    have each : ∀ i < initial.classes.size, (initial.ancestors ⟨i⟩).head? = some ⟨i⟩ := by decide
    exact fun c bound => List.head?_eq_some_iff.mp (each c.index bound)
  known := by
    have each : ∀ i < initial.classes.size, ∀ a ∈ initial.ancestors ⟨i⟩,
        a.index < initial.classes.size := by decide
    exact fun c => each c.index
  nodup := by
    have each : ∀ i < initial.classes.size, (initial.ancestors ⟨i⟩).Nodup := by decide
    exact fun c => each c.index
  inherits := by
    have each : ∀ i < initial.classes.size, ∀ a ∈ initial.ancestors ⟨i⟩,
        (initial.ancestors a).Sublist (initial.ancestors ⟨i⟩) := by decide
    exact fun c => each c.index

variable {t t' : ClassTable} {name : String} {parents : List ClassId} {own : ClassId}

/-- A new subclass: the table with one more class, whose order is a merge of its parents'. -/
theorem extend?_eq_some (extended : t.extend? name parents = some (t', own)) :
    ∃ order, own = ⟨t.classes.size⟩ ∧
      t'.classes = t.classes.push { name, ancestors := own :: order } ∧
      Linearization.merge?
        ((if parents.isEmpty then [.objectClass] else parents).map t.ancestors ++
          [if parents.isEmpty then [.objectClass] else parents]) = some order := by
  simp only [extend?, Option.bind_eq_bind, Option.bind_eq_some_iff, Linearization.ofParents?,
    Option.map_eq_some_iff] at extended
  obtain ⟨_, ⟨order, merged, rfl⟩, finish⟩ := extended
  cases finish
  exact ⟨order, rfl, rfl, merged⟩

/-- A class that is found by its name is one of the table. -/
theorem lt_size_of_ofName? {name : String} {c : ClassId} (named : t.ofName? name = some c) :
    c.index < t.classes.size := by
  obtain ⟨i, member, found⟩ := List.exists_of_findSome?_eq_some named
  have bound : i < t.classes.size := List.mem_range.mp (List.mem_reverse.mp member)
  dsimp only at found
  split at found
  · cases found
    exact bound
  · cases found

theorem ancestors_of_lt {i : ClassInfo} (pushed : t'.classes = t.classes.push i) {c : ClassId}
    (bound : c.index < t.classes.size) : t'.ancestors c = t.ancestors c := by
  simp [ancestors, info, pushed, Array.getD_eq_getD_getElem?, Array.getElem?_push,
    Nat.ne_of_lt bound]

theorem ancestors_of_eq {i : ClassInfo} (pushed : t'.classes = t.classes.push i) {c : ClassId}
    (last : c.index = t.classes.size) : t'.ancestors c = i.ancestors := by
  simp [ancestors, info, pushed, Array.getD_eq_getD_getElem?, last]

/-- A subclass of known classes keeps a table coherent. -/
theorem Coherent.extend (coherent : Coherent t)
    (known : ∀ p ∈ parents, p.index < t.classes.size)
    (extended : t.extend? name parents = some (t', own)) : Coherent t' := by
  obtain ⟨order, rfl, pushed, merged⟩ := extend?_eq_some extended
  generalize chosen : (if parents.isEmpty then [ClassId.objectClass] else parents) = bases at merged
  have bases_known : ∀ p ∈ bases, p.index < t.classes.size := by
    rw [← chosen]
    intro p member
    split at member
    · rw [List.mem_singleton.mp member]
      exact coherent.inhabited
    · exact known p member
  -- Every member of the merged order is an ancestor of some base, itself included.
  have inherited : ∀ a ∈ order, ∃ p ∈ bases, a ∈ t.ancestors p := by
    intro a member
    obtain ⟨list, among, inside⟩ := Linearization.exists_mem_of_merge? merged member
    rcases List.mem_append.mp among with among | among
    · obtain ⟨p, base, rfl⟩ := List.mem_map.mp among
      exact ⟨p, base, inside⟩
    · rw [List.mem_singleton.mp among] at inside
      obtain ⟨rest, same⟩ := coherent.first a (bases_known a inside)
      exact ⟨a, inside, by rw [same]; exact List.mem_cons_self⟩
  have order_known : ∀ a ∈ order, a.index < t.classes.size := by
    intro a member
    obtain ⟨p, base, inside⟩ := inherited a member
    exact coherent.known p (bases_known p base) a inside
  have size : t'.classes.size = t.classes.size + 1 := by rw [pushed, Array.size_push]
  have old {c : ClassId} (bound : c.index < t.classes.size) : t'.ancestors c = t.ancestors c :=
    ancestors_of_lt pushed bound
  have new {c : ClassId} (last : c.index = t.classes.size) :
      t'.ancestors c = c :: order := by
    rw [ancestors_of_eq pushed last, ← last]
  have split {c : ClassId} (bound : c.index < t'.classes.size) :
      c.index < t.classes.size ∨ c.index = t.classes.size := by
    rw [size] at bound
    exact Nat.lt_succ_iff_lt_or_eq.mp bound
  refine ⟨by omega, ?_, ?_, ?_, ?_, ?_⟩
  · exact (old (c := .objectClass) coherent.inhabited).trans coherent.root
  · intro c bound
    rcases split bound with bound | last
    · rw [old bound]
      exact coherent.first c bound
    · exact ⟨order, new last⟩
  · intro c bound a member
    rcases split bound with bound | last
    · rw [old bound] at member
      exact size ▸ Nat.lt_succ_of_lt (coherent.known c bound a member)
    · rw [new last] at member
      rcases List.mem_cons.mp member with rfl | member
      · exact size ▸ last ▸ Nat.lt_succ_self _
      · exact size ▸ Nat.lt_succ_of_lt (order_known a member)
  · intro c bound
    rcases split bound with bound | last
    · rw [old bound]
      exact coherent.nodup c bound
    · rw [new last]
      refine List.nodup_cons.mpr ⟨fun member => ?_, Linearization.nodup_of_merge? merged⟩
      exact Nat.lt_irrefl _ (last ▸ order_known c member)
  · intro c bound a member
    rcases split bound with bound | last
    · rw [old bound] at member ⊢
      rw [old (coherent.known c bound a member)]
      exact coherent.inherits c bound a member
    · rw [new last] at member ⊢
      rcases List.mem_cons.mp member with rfl | member
      · rw [new last]
      · obtain ⟨p, base, inside⟩ := inherited a member
        rw [old (order_known a member)]
        have kept : (t.ancestors p).Sublist order := Linearization.sublist_of_merge? merged
          (List.mem_append_left _ (List.mem_map_of_mem base))
        exact ((coherent.inherits p (bases_known p base) a inside).trans kept).cons c

theorem Built.coherent (built : Built t) : Coherent t := by
  induction built with
  | initial => exact coherent_initial
  | extend _ known extended ih => exact ih.extend known extended

theorem ancestors_of_ge {c : ClassId} (beyond : t.classes.size ≤ c.index) :
    t.ancestors c = [.objectClass] := by
  simp [ancestors, info, Array.getD_eq_getD_getElem?, Array.getElem?_eq_none beyond]

/-- A class that is among the ancestors of another stays there when the table grows. -/
theorem isSubclass_of_extend? (extended : t.extend? name parents = some (t', own))
    {c ancestor : ClassId} (subclass : t.isSubclass c ancestor = true)
    (proper : ancestor ≠ .objectClass) : t'.isSubclass c ancestor = true := by
  obtain ⟨order, -, pushed, -⟩ := extend?_eq_some extended
  by_cases bound : c.index < t.classes.size
  · rwa [isSubclass, ancestors_of_lt pushed bound]
  · rw [isSubclass, ancestors_of_ge (Nat.le_of_not_lt bound), List.contains_iff_mem,
      List.mem_singleton] at subclass
    exact absurd subclass proper

/-- The classes of the library are in every table as they are. -/
theorem Built.getElem?_classes (built : Built t) :
    ∀ c : ClassId, c.index < ClassTable.initial.classes.size →
      t.classes[c.index]? = ClassTable.initial.classes[c.index]? := by
  induction built with
  | initial => exact fun _ _ => rfl
  | extend _ _ extended ih =>
    intro c bound
    obtain ⟨order, -, pushed, -⟩ := extend?_eq_some extended
    obtain ⟨before, -⟩ := Array.getElem?_eq_some_iff.mp
      ((ih c bound).trans (Array.getElem?_eq_getElem bound))
    rw [pushed, Array.getElem?_push, if_neg (Nat.ne_of_lt before), ih c bound]

theorem Built.info_of_lt (built : Built t) {c : ClassId}
    (bound : c.index < ClassTable.initial.classes.size) : t.info c = ClassTable.initial.info c := by
  simp only [info, Array.getD_eq_getD_getElem?, built.getElem?_classes c bound]

/-- Classes that are added later define and declare nothing. -/
theorem Built.info_of_ge (built : Built t) {c : ClassId}
    (beyond : ClassTable.initial.classes.size ≤ c.index) :
    (t.info c).defines = [] ∧ (t.info c).declares = [] := by
  induction built with
  | initial =>
    simp [info, Array.getD_eq_getD_getElem?, Array.getElem?_eq_none beyond]
  | @extend t t' _ _ _ _ _ extended ih =>
    obtain ⟨order, -, pushed, -⟩ := extend?_eq_some extended
    by_cases last : c.index = t.classes.size
    · simp [info, pushed, Array.getD_eq_getD_getElem?, last]
    · have same : t'.info c = t.info c := by
        simp [info, pushed, Array.getD_eq_getD_getElem?, Array.getElem?_push, last]
      rwa [same]

theorem Built.isSubclass_self (built : Built t) {c : ClassId}
    (bound : c.index < ClassTable.initial.classes.size) : t.isSubclass c c = true := by
  obtain ⟨known, -⟩ := Array.getElem?_eq_some_iff.mp
    ((built.getElem?_classes c bound).trans (Array.getElem?_eq_getElem bound))
  obtain ⟨rest, same⟩ := built.coherent.first c known
  rw [isSubclass, same]
  exact List.contains_iff_mem.mpr List.mem_cons_self

/-- A method that a class of the library defines is found in all of its subclasses. -/
theorem Built.isSome_owner? (built : Built t) {c ancestor : ClassId} {m : Method}
    (subclass : t.isSubclass c ancestor = true)
    (bound : ancestor.index < ClassTable.initial.classes.size)
    (defined : (ClassTable.initial.info ancestor).defines.contains m = true) :
    (t.owner? c m).isSome := by
  have same : t.info ancestor = ClassTable.initial.info ancestor := by
    simp only [info, Array.getD_eq_getD_getElem?, built.getElem?_classes ancestor bound]
  refine List.find?_isSome.mpr ⟨ancestor, List.contains_iff_mem.mp subclass, ?_⟩
  rw [same, defined, Bool.true_or]

/-- Wherever a class is searched, it is searched before its own proper ancestors. -/
theorem Coherent.idxOf_lt (coherent : Coherent t) {c a b : ClassId} (member : a ∈ t.ancestors c)
    (subclass : t.isSubclass a b = true) (proper : a ≠ b) :
    (t.ancestors c).idxOf a < (t.ancestors c).idxOf b := by
  have inside : b ∈ t.ancestors a := List.contains_iff_mem.mp subclass
  by_cases bound : c.index < t.classes.size
  · obtain ⟨rest, same⟩ := coherent.first a (coherent.known c bound a member)
    rw [same] at inside
    have later : b ∈ rest := (List.mem_cons.mp inside).resolve_left proper.symm
    have kept := coherent.inherits c bound a member
    rw [same] at kept
    obtain ⟨before, after, split, here, rest_kept⟩ := List.cons_sublist_iff.mp kept
    have apart : b ∉ before := by
      intro early
      have unique := coherent.nodup c bound
      rw [split] at unique
      exact (List.nodup_append.mp unique).2.2 b early b (rest_kept.subset later) rfl
    rw [split, List.idxOf_append_of_mem here, List.idxOf_append_of_notMem apart]
    exact Nat.lt_of_lt_of_le (List.idxOf_lt_length_of_mem here) (Nat.le_add_right _ _)
  · rw [ancestors_of_ge (Nat.le_of_not_lt bound)] at member
    rw [List.mem_singleton.mp member, coherent.root] at inside
    exact absurd (List.mem_singleton.mp member) (List.mem_singleton.mp inside ▸ proper)

end ProxGrad.ClassTable
