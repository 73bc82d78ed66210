import ProxGrad.Proofs.Action
import ProxGrad.Proofs.Conversion
import ProxGrad.Proofs.Stores

/-!
# Array forms

A value whose outline is not ragged lies along the sides found: each sequence has as many parts as
its side says, and single entries stand behind the last side. Its entries in any type are then as
many as the sides make places, so that the only faults of an array form are defects of conversion
and overflows of single leaves.
-/

set_option autoImplicit false

namespace ProxGrad

namespace Outline

/-- What later parts at a depth do to sides found before them. A later empty sequence ends the sides
at its own. -/
structure Keeps (depth : ℕ) (o o' : Outline) : Prop where
  sides : o'.sides = o.sides
  most : o'.most = o.most ∨
    ∃ i, depth ≤ i ∧ i < o.most ∧ o.sides[i]? = some 0 ∧ o'.most = i + 1

variable {depth deeper : ℕ} {o o₁ o₂ : Outline}

theorem Keeps.refl (depth : ℕ) (o : Outline) : Keeps depth o o :=
  ⟨rfl, .inl rfl⟩

theorem Keeps.trans (first : Keeps depth o o₁) (second : Keeps depth o₁ o₂) :
    Keeps depth o o₂ := by
  refine ⟨second.sides.trans first.sides, ?_⟩
  obtain same | ⟨i, above, below, side, most⟩ := second.most
  · rw [same]
    exact first.most
  · rw [first.sides] at side
    refine .inr ⟨i, above, ?_, side, most⟩
    obtain same | ⟨j, -, before, -, shrunk⟩ := first.most <;> omega

theorem Keeps.mono (keeps : Keeps deeper o o₁) (le : depth ≤ deeper) : Keeps depth o o₁ := by
  refine ⟨keeps.sides, keeps.most.imp_right ?_⟩
  rintro ⟨i, above, rest⟩
  exact ⟨i, le.trans above, rest⟩

/-- The sides from a depth on. -/
def remaining (depth : ℕ) (o : Outline) : List ℕ :=
  (o.sides.take o.most).drop depth

theorem remaining_eq_cons {count : ℕ} (side : o.sides[depth]? = some count)
    (below : depth < o.most) : o.remaining depth = count :: o.remaining (depth + 1) := by
  have inside : (o.sides.take o.most)[depth]? = some count := by
    rw [List.getElem?_take_of_lt below, side]
  obtain ⟨bound, entry⟩ := List.getElem?_eq_some_iff.mp inside
  rw [remaining, List.drop_eq_getElem_cons bound, entry]
  rfl

end Outline

namespace Value

/-- A value along sides: a sequence has as many parts as its side says, each along the rest, and what
is neither a sequence nor an array has no sides. -/
inductive Laid : List ℕ → Value → Prop
  | array (sides : List ℕ) (a : NDArray) : Laid sides (.array a)
  | list {sides : List ℕ} {items : List Value} (parts : ∀ v ∈ items, Laid sides v) :
      Laid (items.length :: sides) (.list items)
  | tuple {sides : List ℕ} {items : List Value} (parts : ∀ v ∈ items, Laid sides v) :
      Laid (items.length :: sides) (.tuple items)
  | entry {v : Value} (array : ∀ a, v ≠ .array a) (list : ∀ items, v ≠ .list items)
      (tuple : ∀ items, v ≠ .tuple items) : Laid [] v

/-- Sides may end at an empty one. -/
theorem Laid.take {sides : List ℕ} {v : Value} (laid : Laid sides v) {i : ℕ}
    (empty : sides[i]? = some 0) : Laid (sides.take (i + 1)) v := by
  induction laid generalizing i with
  | array sides a => exact .array _ a
  | @list sides items parts ih =>
    rw [List.take_succ_cons]
    refine .list fun v member => ?_
    cases i with
    | zero =>
      have none : items = [] := by simpa using empty
      rw [none] at member
      cases member
    | succ i => exact ih v member empty
  | @tuple sides items parts ih =>
    rw [List.take_succ_cons]
    refine .tuple fun v member => ?_
    cases i with
    | zero =>
      have none : items = [] := by simpa using empty
      rw [none] at member
      cases member
    | succ i => exact ih v member empty
  | entry => cases empty

/-- What later parts at a depth do to the sides leaves the parts before them along the sides. -/
theorem Laid.keeps {depth : ℕ} {o o' : Outline} {v : Value} (laid : Laid (o.remaining depth) v)
    (keeps : o.Keeps depth o') : Laid (o'.remaining depth) v := by
  obtain ⟨sides, same | ⟨i, above, below, side, most⟩⟩ := keeps
  · rwa [Outline.remaining, sides, same]
  · have empty : (o.remaining depth)[i - depth]? = some 0 := by
      rw [Outline.remaining, List.getElem?_drop, Nat.add_sub_cancel' above,
        List.getElem?_take_of_lt below, side]
    have ended : o'.remaining depth = (o.remaining depth).take (i - depth + 1) := by
      rw [Outline.remaining, Outline.remaining, sides, most, List.take_drop, List.take_take]
      congr 2
      omega
    rw [ended]
    exact laid.take empty

theorem keeps_meet {depth : ℕ} {o : Outline} {own : List ℕ} {sequence : Bool}
    (regular : (o.meet depth own sequence).1.ragged = false) (settled : o.settled = true) :
    o.Keeps depth (o.meet depth own sequence).1 := by
  obtain ⟨-, ⟨-, same, -⟩ | ⟨unsettled, -⟩⟩ :=
    Outline.meet_of_agrees (Outline.agrees_of_regular regular)
  · rw [same]
    exact .refl depth o
  · cases settled.symm.trans unsettled

theorem laid_entry {depth : ℕ} {o : Outline} {v : Value} (array : ∀ a, v ≠ .array a)
    (list : ∀ items, v ≠ .list items) (tuple : ∀ items, v ≠ .tuple items)
    (regular : (o.meet depth [] false).1.ragged = false) :
    Laid ((o.meet depth [] false).1.remaining depth) v := by
  have last : (o.meet depth [] false).1.most = depth := by
    obtain ⟨-, ⟨-, same, -, level⟩ | ⟨-, same⟩⟩ :=
      Outline.meet_of_agrees (Outline.agrees_of_regular regular) <;> rw [same]
    · exact level rfl
    · rfl
  have none : (o.meet depth [] false).1.remaining depth = [] := by
    rw [Outline.remaining, last]
    simp
  rw [none]
  exact .entry array list tuple

/-- A sequence, by what its parts are and do. -/
theorem laid_sequence {depth : ℕ} {o : Outline} {items : List Value}
    (regular : (o.sequence depth items.length fun o => outlineItems (depth + 1) o items).ragged =
      false) (long : depth ≤ o.sides.length)
    (parts : ∀ o : Outline, (outlineItems (depth + 1) o items).ragged = false →
      depth + 1 ≤ o.sides.length →
      (∀ v ∈ items, Laid ((outlineItems (depth + 1) o items).remaining (depth + 1)) v) ∧
        (o.settled = true → o.Keeps (depth + 1) (outlineItems (depth + 1) o items))) :
    let o' := o.sequence depth items.length fun o => outlineItems (depth + 1) o items
    (∃ sides, o'.remaining depth = items.length :: sides ∧ ∀ v ∈ items, Laid sides v) ∧
      (o.settled = true → o.Keeps depth o') := by
  obtain ⟨met, agrees, -, result⟩ := Outline.sequence_of_regular regular
  obtain ⟨side, before, fits, same⟩ := Outline.side_of_agrees agrees long
  have long' : depth + 1 ≤ met.sides.length := (List.getElem?_eq_some_iff.mp side).1
  dsimp only
  rw [result] at regular ⊢
  split at regular
  case isTrue empty =>
    rw [if_pos empty]
    have none : items = [] := List.length_eq_zero_iff.mp empty
    subst none
    refine ⟨⟨_, Outline.remaining_eq_cons side (Nat.lt_succ_self depth), nofun⟩, fun settled => ?_⟩
    cases same settled
    exact ⟨rfl, .inr ⟨depth, le_rfl, fits, side, rfl⟩⟩
  case isFalse nonempty =>
    rw [if_neg nonempty]
    obtain ⟨laid, keeps⟩ := parts met regular long'
    cases items with
    | nil => exact absurd rfl nonempty
    | cons v vs =>
      obtain ⟨n, grown, -⟩ := extends_outlineItems (depth + 1) met v vs regular long'
      have side' : (outlineItems (depth + 1) met (v :: vs)).sides[depth]? =
          some (v :: vs).length := by
        have ends := congrArg (·[depth]?) grown.before
        simpa [List.getElem?_take, side] using ends
      refine ⟨⟨_, Outline.remaining_eq_cons side' grown.deep, laid⟩, fun settled => ?_⟩
      cases same settled
      exact (keeps settled).mono (Nat.le_succ depth)

mutual

theorem laid_outlineAt (depth : ℕ) (o : Outline) (v : Value)
    (regular : (outlineAt depth o v).ragged = false) (long : depth ≤ o.sides.length) :
    Laid ((outlineAt depth o v).remaining depth) v ∧
      (o.settled = true → o.Keeps depth (outlineAt depth o v)) := by
  cases v with
  | array a => exact ⟨.array _ a, keeps_meet regular⟩
  | list items =>
    obtain ⟨⟨sides, found, laid⟩, keeps⟩ := laid_sequence regular long fun o regular long =>
      laid_outlineItems (depth + 1) o items regular long
    refine ⟨?_, keeps⟩
    rw [outlineAt, found]
    exact .list laid
  | tuple items =>
    obtain ⟨⟨sides, found, laid⟩, keeps⟩ := laid_sequence regular long fun o regular long =>
      laid_outlineItems (depth + 1) o items regular long
    refine ⟨?_, keeps⟩
    rw [outlineAt, found]
    exact .tuple laid
  | _ => exact ⟨laid_entry nofun nofun nofun regular, keeps_meet regular⟩
termination_by sizeOf v

/-- All items of a sequence lie along the sides that the last of them leaves. -/
theorem laid_outlineItems (depth : ℕ) (o : Outline) (items : List Value)
    (regular : (outlineItems depth o items).ragged = false) (long : depth ≤ o.sides.length) :
    (∀ v ∈ items, Laid ((outlineItems depth o items).remaining depth) v) ∧
      (o.settled = true → o.Keeps depth (outlineItems depth o items)) := by
  cases items with
  | nil => exact ⟨nofun, fun _ => .refl depth o⟩
  | cons v vs =>
    have regular' := clean_outlineItems depth (outlineAt depth o v) vs regular
    have grown := extends_outlineAt depth o v regular' long
    obtain ⟨laid, keeps⟩ := laid_outlineAt depth o v regular' long
    obtain ⟨rest, keeps'⟩ := laid_outlineItems depth (outlineAt depth o v) vs regular grown.long
    refine ⟨fun w member => ?_, fun settled => (keeps settled).trans (keeps' grown.settled)⟩
    rcases List.mem_cons.mp member with rfl | later
    · exact laid.keeps (keeps' grown.settled)
    · exact rest w later
termination_by sizeOf items

end

/-- A value that is not ragged lies along the sides of its outline. -/
theorem laid_outline {v : Value} (regular : v.outline.ragged = false) :
    Laid (v.outline.sides.take v.outline.most) v :=
  (laid_outlineAt 0 .empty v regular (Nat.zero_le _)).1

/-! ## Leaves -/

mutual

/-- A leaf has no parts, and its type is among those found. -/
theorem leaf_of_mem_leaves {v w : Value} (member : w ∈ v.leaves) :
    (∀ a, w ≠ .array a) ∧ w.toEntry.ownType ∈ v.entryTypes := by
  cases v with
  | list items => exact leaf_of_mem_leavesOfItems member
  | tuple items => exact leaf_of_mem_leavesOfItems member
  | array a =>
    obtain ⟨x, -, rfl⟩ := List.mem_map.mp member
    exact ⟨nofun, List.mem_singleton.mpr rfl⟩
  | _ =>
    obtain rfl := List.mem_singleton.mp member
    exact ⟨nofun, List.mem_singleton.mpr rfl⟩
termination_by sizeOf v

theorem leaf_of_mem_leavesOfItems {items : List Value} {w : Value}
    (member : w ∈ leavesOfItems items) :
    (∀ a, w ≠ .array a) ∧ w.toEntry.ownType ∈ entryTypesOfList items := by
  cases items with
  | nil => cases member
  | cons v vs =>
    rcases List.mem_append.mp member with first | rest
    · exact (leaf_of_mem_leaves first).imp_right (List.mem_append_left _)
    · exact (leaf_of_mem_leavesOfItems rest).imp_right (List.mem_append_right _)
termination_by sizeOf items

end

/-! ## Entries -/

variable {fails : Fault → Prop} {d : DType} {sides : List ℕ} {v : Value}

/-- Each leaf of a value has an entry of a type, or fails in certain ways. -/
def Entered (fails : Fault → Prop) (d : DType) (v : Value) : Prop :=
  ∀ w ∈ v.leaves, Outcome fails (fun _ => True) (entryAs d w)

theorem Entered.convertTo {a : NDArray} (entered : Entered fails d (.array a)) :
    Outcome fails (fun b => b.dtype = d) (a.convertTo d) := by
  have checked (x : Scalar) (member : x ∈ a.data.entries)
      (same : entryAs d (.scalar a.dtype x) = Scalar.convert d a.dtype x ∨ d = .object) :
      Outcome fails (fun _ => True) (Scalar.convert d a.dtype x) := by
    obtain same | rfl := same
    · rw [← same]
      exact entered _ (List.mem_map_of_mem member)
    · cases a.dtype <;> trivial
  have mapped (f : Scalar → Except Fault Scalar)
      (each : ∀ x ∈ a.data.entries, Outcome fails (fun _ => True) (f x)) :
      Outcome fails (fun b => b.dtype = d) ((a.data.mapM f).map (NDArray.mk d)) := by
    have outcome := Outcome.mapM each
    refine Outcome.map (a := a.data.mapM f) ?_
    unfold Tensor.mapM
    split
    · next failed =>
      rw [failed] at outcome
      exact outcome
    · rfl
  obtain ⟨e, data⟩ := a
  cases e with
  | object | text =>
    refine mapped _ fun x member => checked x member ?_
    cases d with
    | object => exact .inr rfl
    | _ => exact .inl rfl
  | _ => exact rfl

theorem Entered.spread (conversion : ∀ defect, fails (.conversion defect)) {a : NDArray}
    (entered : Entered fails d (.array a)) (sides : List ℕ) :
    Outcome fails (fun xs => xs.length = Shape.size sides) (spread d sides a) := by
  refine entered.convertTo.bind fun b _ => ?_
  split
  · next places _ => exact places
  · exact conversion _

theorem Entered.items {items : List Value}
    (entered : ∀ v ∈ items, Entered fails d v)
    (parts : ∀ v ∈ items, Entered fails d v →
      Outcome fails (fun xs => xs.length = Shape.size sides) (entriesUnder d sides v)) :
    Outcome fails (fun xs => xs.length = items.length * Shape.size sides)
      (entriesOfItems d sides items) := by
  induction items with
  | nil => exact (Nat.zero_mul _).symm
  | cons v vs ih =>
    have first := parts v List.mem_cons_self (entered v List.mem_cons_self)
    have rest := ih (fun w member => entered w (List.mem_cons_of_mem v member))
      (fun w member => parts w (List.mem_cons_of_mem v member))
    rw [entriesOfItems]
    refine first.bind fun xs places => rest.bind fun ys places' => ?_
    change (xs ++ ys).length = _
    rw [List.length_append, places, places', List.length_cons, Nat.succ_mul, Nat.add_comm]

theorem mem_leavesOfItems {items : List Value} {v w : Value} (member : v ∈ items)
    (leaf : w ∈ v.leaves) : w ∈ leavesOfItems items := by
  induction items with
  | nil => cases member
  | cons v' vs ih =>
    rcases List.mem_cons.mp member with rfl | later
    · exact List.mem_append_left _ leaf
    · exact List.mem_append_right _ (ih later)

/-- A value along sides has an entry for each place, or fails as one of its leaves does. -/
theorem Entered.entriesUnder (conversion : ∀ defect, fails (.conversion defect))
    (laid : Laid sides v) (entered : Entered fails d v) :
    Outcome fails (fun xs => xs.length = Shape.size sides) (entriesUnder d sides v) := by
  induction laid with
  | array sides a =>
    have repeated := entered.spread conversion sides
    cases sides with
    | nil =>
      rw [Value.entriesUnder]
      split_ifs
      · exact rfl
      · exact repeated
    | cons n sides => exact repeated
  | @list sides items parts ih =>
    exact Entered.items
      (fun v member w leaf => entered w (mem_leavesOfItems member leaf)) ih
  | @tuple sides items parts ih =>
    exact Entered.items
      (fun v member w leaf => entered w (mem_leavesOfItems member leaf)) ih
  | @entry v array list tuple =>
    have alone : v.leaves = [v] := by
      cases v with
      | array a => exact absurd rfl (array a)
      | list items => exact absurd rfl (list items)
      | tuple items => exact absurd rfl (tuple items)
      | _ => rfl
    have single : Value.entriesUnder d [] v = (do return [← entryAs d v]) := by
      cases v with
      | array a => exact absurd rfl (array a)
      | list items => exact absurd rfl (list items)
      | tuple items => exact absurd rfl (tuple items)
      | _ => rfl
    rw [single]
    exact (entered v (alone ▸ List.mem_singleton_self v)).bind fun _ _ => rfl

/-- The array form of a value that is not an array yet. -/
theorem toArray_of_ne_array (requested : Option DType) (leaf : ∀ a, v ≠ .array a) :
    v.toArray requested =
      (if v.outline.ragged && requested ≠ some .object then
        throw (.conversion v.outline.defect)
      else do
        let d := requested.getD (joinTypes v.entryTypes)
        let sides := v.outline.sides.take v.outline.most
        match Tensor.ofShape? sides (← Value.entriesUnder d sides v) with
        | some data => return ⟨d, data⟩
        | none => throw .shapes) := by
  cases v with
  | array a => exact absurd rfl (leaf a)
  | _ => rfl

/-- The array form of a value has the type that is asked for, or else the one found. It fails with a
defect of conversion or as one of the leaves does. -/
theorem outcome_toArray (conversion : ∀ defect, fails (.conversion defect))
    {requested : Option DType} (unlike : requested ≠ some .object)
    (entered : Entered fails (requested.getD (joinTypes v.entryTypes)) v) :
    Outcome fails (fun a => a.dtype = requested.getD (joinTypes v.entryTypes))
      (v.toArray requested) := by
  by_cases given : ∃ a, v = .array a
  · obtain ⟨a, rfl⟩ := given
    cases requested with
    | none => rfl
    | some d =>
      change Outcome _ _ (if a.dtype = d then return a else a.convertTo d)
      split_ifs with same
      · exact same
      · exact entered.convertTo
  · rw [toArray_of_ne_array requested (not_exists.mp given)]
    split_ifs with ragged
    · exact conversion _
    · have regular : v.outline.ragged = false := by simpa [unlike] using ragged
      refine (entered.entriesUnder conversion (laid_outline regular)).bind fun xs places => ?_
      rw [Tensor.ofShape?, dif_pos places]
      rfl

/-! ## Leaves of a value with an array form -/

theorem exists_of_mapM_eq_ok {α β : Type} {f : α → Except Fault β} {xs : List α} {ys : List β}
    (mapped : xs.mapM f = .ok ys) : ∀ x ∈ xs, ∃ y, f x = .ok y := by
  induction xs generalizing ys with
  | nil => exact nofun
  | cons x xs ih =>
    rw [List.mapM_cons] at mapped
    obtain ⟨y, first, rest⟩ := exists_of_bind_eq_ok mapped
    obtain ⟨ys', rest, -⟩ := exists_of_bind_eq_ok rest
    intro x' member
    rcases List.mem_cons.mp member with rfl | later
    · exact ⟨y, first⟩
    · exact ih rest x' later

theorem exists_entry_of_convertTo {a b : NDArray} (floating : d.isInexact = true)
    (converted : a.convertTo d = .ok b) :
    ∀ w ∈ (Value.array a).leaves, ∃ y, entryAs d w = .ok y := by
  intro w member
  obtain ⟨x, entry, rfl⟩ := List.mem_map.mp member
  have read : entryAs d (.scalar a.dtype x) = Scalar.convert d a.dtype x := by
    cases d with
    | real | complex => rfl
    | _ => cases floating
  rw [read]
  have checked (f : Scalar → Except Fault Scalar)
      (mapped : (a.data.mapM f).map (NDArray.mk d) = .ok b) : ∃ y, f x = .ok y := by
    unfold Tensor.mapM at mapped
    split at mapped
    · cases mapped
    · next ys found => exact exists_of_mapM_eq_ok found x entry
  obtain ⟨e, data⟩ := a
  cases e with
  | object | text => exact checked _ converted
  | _ => exact ⟨_, rfl⟩

theorem exists_entry_of_spread {a : NDArray} {xs : List Scalar} (floating : d.isInexact = true)
    (repeated : spread d sides a = .ok xs) :
    ∀ w ∈ (Value.array a).leaves, ∃ y, entryAs d w = .ok y := by
  obtain ⟨b, converted, -⟩ := exists_of_bind_eq_ok repeated
  exact exists_entry_of_convertTo floating converted

theorem entryAs_sequence_ne_ok (floating : d.isInexact = true) (items : List Value) (y : Scalar) :
    entryAs d (.list items) ≠ .ok y ∧ entryAs d (.tuple items) ≠ .ok y := by
  cases d with
  | real | complex => exact ⟨nofun, nofun⟩
  | _ => cases floating

mutual

/-- A floating array form reads every leaf, also where none of its entries shows it. -/
theorem exists_entry_of_entriesUnder (floating : d.isInexact = true) {sides : List ℕ} {v : Value}
    {xs : List Scalar} (found : entriesUnder d sides v = .ok xs) :
    ∀ w ∈ v.leaves, ∃ y, entryAs d w = .ok y := by
  have single (alone : v.leaves = [v])
      (entry : entriesUnder d sides v = (do return [← entryAs d v])) :
      ∀ w ∈ v.leaves, ∃ y, entryAs d w = .ok y := by
    intro w member
    rw [alone] at member
    obtain rfl := List.mem_singleton.mp member
    rw [entry] at found
    obtain ⟨y, entered, -⟩ := exists_of_bind_eq_ok found
    exact ⟨y, entered⟩
  cases v with
  | array a =>
    have repeated : spread d sides a = .ok xs := by
      cases sides with
      | nil =>
        rw [entriesUnder, if_neg] at found
        · exact found
        · rintro entries
          cases d with
          | real | complex => cases entries
          | _ => cases floating
      | cons => exact found
    exact exists_entry_of_spread floating repeated
  | list items =>
    cases sides with
    | nil =>
      obtain ⟨y, entered, -⟩ := exists_of_bind_eq_ok found
      exact absurd entered (entryAs_sequence_ne_ok floating items y).1
    | cons n sides => exact exists_entry_of_entriesOfItems floating found
  | tuple items =>
    cases sides with
    | nil =>
      obtain ⟨y, entered, -⟩ := exists_of_bind_eq_ok found
      exact absurd entered (entryAs_sequence_ne_ok floating items y).2
    | cons n sides => exact exists_entry_of_entriesOfItems floating found
  | _ => exact single rfl (by cases sides <;> rfl)
termination_by sizeOf v

theorem exists_entry_of_entriesOfItems (floating : d.isInexact = true) {sides : List ℕ}
    {items : List Value} {xs : List Scalar} (found : entriesOfItems d sides items = .ok xs) :
    ∀ w ∈ leavesOfItems items, ∃ y, entryAs d w = .ok y := by
  cases items with
  | nil => exact nofun
  | cons v vs =>
    rw [entriesOfItems] at found
    obtain ⟨first, head, rest⟩ := exists_of_bind_eq_ok found
    obtain ⟨others, tail, -⟩ := exists_of_bind_eq_ok rest
    intro w member
    rcases List.mem_append.mp member with inside | later
    · exact exists_entry_of_entriesUnder floating head w inside
    · exact exists_entry_of_entriesOfItems floating tail w later
termination_by sizeOf items

end

theorem exists_entry_of_toArray (floating : d.isInexact = true) {a : NDArray}
    (formed : v.toArray (some d) = .ok a) : ∀ w ∈ v.leaves, ∃ y, entryAs d w = .ok y := by
  by_cases given : ∃ b, v = .array b
  · obtain ⟨b, rfl⟩ := given
    change (if b.dtype = d then .ok b else b.convertTo d) = .ok a at formed
    split_ifs at formed with same
    · intro w member
      obtain ⟨x, -, rfl⟩ := List.mem_map.mp member
      subst same
      obtain ⟨e, data⟩ := b
      cases e with
      | real | complex => exact ⟨_, rfl⟩
      | _ => cases floating
    · exact exists_entry_of_convertTo floating formed
  · rw [toArray_of_ne_array _ (not_exists.mp given)] at formed
    split_ifs at formed
    obtain ⟨xs, found, -⟩ := exists_of_bind_eq_ok formed
    exact exists_entry_of_entriesUnder floating found

/-- A value that is a leaf itself fails as its entry does. -/
theorem toArray_of_leaf {fault : Fault} (alone : v.leaves = [v])
    (list : ∀ items, v ≠ .list items) (tuple : ∀ items, v ≠ .tuple items)
    (failed : entryAs d v = .error fault) : v.toArray (some d) = .error fault := by
  have leaf := (leaf_of_mem_leaves (alone ▸ List.mem_singleton_self v)).1
  have outlined : v.outline = ⟨[], 0, true, false⟩ := by
    cases v with
    | array a => exact absurd rfl (leaf a)
    | list items => exact absurd rfl (list items)
    | tuple items => exact absurd rfl (tuple items)
    | _ => rfl
  have entry : entriesUnder d [] v = (do return [← entryAs d v]) := by
    cases v with
    | array a => exact absurd rfl (leaf a)
    | list items => exact absurd rfl (list items)
    | tuple items => exact absurd rfl (tuple items)
    | _ => rfl
  rw [toArray_of_ne_array _ leaf, outlined]
  simp only [Bool.false_and, Bool.false_eq_true, if_false, List.take_nil, Option.getD_some, entry,
    failed]
  rfl

end Value

end ProxGrad
