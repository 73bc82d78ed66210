import Mathlib.Data.List.Infix
import Mathlib.Tactic.Ring
import ProxGrad.Proofs.Floating

/-!
# What a store leaves

A store that succeeds fills the whole destination, so that nothing of the old entries is left, and
whether it succeeds does not depend on them. For a sequence that is stored entry by entry this rests
on its outline: one that is not ragged has as many leaves as its sides make places.
-/

set_option autoImplicit false

namespace ProxGrad

theorem Shape.size_eq_zero_of_mem {s : List Nat} (member : 0 ∈ s) : size s = 0 := by
  induction s with
  | nil => cases member
  | cons n s ih =>
    rw [size]
    rcases List.mem_cons.mp member with rfl | later
    · exact Nat.zero_mul _
    · rw [ih later, Nat.mul_zero]

namespace Outline

variable {o : Outline} {depth count : Nat} {own : List Nat} {sequence : Bool}

theorem isPrefix_of_agreement {own sides : List Nat} (agrees : agreement own sides = own.length) :
    own <+: sides := by
  fun_induction agreement own sides with
  | case1 n s t ih =>
    exact List.cons_prefix_cons.mpr ⟨rfl, ih (Nat.succ.inj agrees)⟩
  | case2 => cases agrees
  | case3 own sides other =>
    cases own with
    | nil => exact List.nil_prefix
    | cons n s =>
      cases agrees

theorem agrees_of_regular (regular : (o.meet depth own sequence).1.ragged = false) :
    (o.meet depth own sequence).2 = true := by
  have agrees {ragged agrees : Bool} (clean : (ragged || !agrees) = false) : agrees = true := by
    simpa using (Bool.or_eq_false_iff.mp clean).2
  unfold meet at regular ⊢
  dsimp only at regular ⊢
  generalize (if o.most < depth + own.length then own.take (o.most - depth) else own) = shown
    at regular ⊢
  by_cases first : (!o.settled) = true
  · rw [if_pos first] at regular ⊢
    exact agrees regular
  · rw [if_neg first] at regular ⊢
    by_cases common : agreement shown (o.sides.drop depth) = shown.length
    · rw [if_pos common] at regular ⊢
      exact agrees regular
    · rw [if_neg common] at regular
      cases regular

/-- A part that agrees with those before it shows what they have shown, or is the first to show
it. -/
theorem meet_of_agrees (agrees : (o.meet depth own sequence).2 = true) :
    depth + own.length ≤ o.most ∧
      (o.settled = true ∧ (o.meet depth own sequence).1 = o ∧ own <+: o.sides.drop depth ∧
          (sequence = false → o.most = depth + own.length) ∨
        o.settled = false ∧ (o.meet depth own sequence).1 =
          ⟨o.sides.take depth ++ own, if sequence then o.most else depth + own.length,
            !sequence, o.ragged⟩) := by
  obtain ⟨sides, most, settled, ragged⟩ := o
  have fits : ¬ most < depth + own.length := by
    intro exceeds
    cases settled <;> simp [meet, exceeds] at agrees
    split at agrees <;> simp at agrees
  refine ⟨Nat.le_of_not_lt fits, ?_⟩
  cases settled with
  | false =>
    cases sequence <;> simp [meet, fits]
  | true =>
    have common : agreement own (sides.drop depth) = own.length := by
      by_contra departs
      simp [meet, fits, departs] at agrees
    have inside := isPrefix_of_agreement common
    have level : sequence = false → most = depth + own.length := by
      rintro rfl
      simpa [meet, fits, common] using agrees
    cases sequence with
    | false => simp [meet, common, inside, level rfl]
    | true => simp [meet, fits, common, inside]

/-- What a part without defects at a depth makes of an outline, where it has so many leaves. -/
structure Extends (depth : Nat) (o o' : Outline) (leaves : Nat) : Prop where
  settled : o'.settled = true
  deep : depth ≤ o'.most
  long : depth ≤ o'.sides.length
  before : o'.sides.take depth = o.sides.take depth
  count : leaves = Shape.size ((o'.sides.drop depth).take (o'.most - depth))
  kept : o.settled = true → o'.sides = o.sides ∧ ∀ e ≤ depth,
    Shape.size ((o.sides.drop e).take (o'.most - e)) =
      Shape.size ((o.sides.drop e).take (o.most - e))

theorem clean_of_regular (regular : (o.meet depth own sequence).1.ragged = false) :
    o.ragged = false := by
  obtain ⟨-, ⟨-, same, -⟩ | ⟨-, same⟩⟩ := meet_of_agrees (agrees_of_regular regular) <;>
    rwa [same] at regular

theorem extends_meet (regular : (o.meet depth own false).1.ragged = false)
    (long : depth ≤ o.sides.length) :
    Extends depth o (o.meet depth own false).1 (Shape.size own) := by
  obtain ⟨fits, ⟨settled, same, inside, level⟩ | ⟨settled, same⟩⟩ :=
    meet_of_agrees (agrees_of_regular regular) <;> rw [same]
  · refine ⟨settled, by omega, long, rfl, ?_, fun _ => ⟨rfl, fun _ _ => rfl⟩⟩
    rw [level rfl, Nat.add_sub_cancel_left, ← List.prefix_iff_eq_take.mp inside]
  · have length : (o.sides.take depth).length = depth := by simp [long]
    refine ⟨rfl, Nat.le_add_right _ _, ?_, ?_, ?_, fun held => ?_⟩
    · simp [long]
    · simp [length]
    · simp [length]
    · cases settled.symm.trans held

theorem Extends.next {o₁ o₂ : Outline} {n₁ n₂ : Nat} (first : Extends depth o o₁ n₁)
    (second : Extends depth o₁ o₂ n₂) : Extends depth o o₂ n₂ ∧ n₁ = n₂ := by
  obtain ⟨same, sizes⟩ := second.kept first.settled
  refine ⟨{ second with
    before := second.before.trans first.before
    kept := fun settled => ?_ }, ?_⟩
  · obtain ⟨same', sizes'⟩ := first.kept settled
    refine ⟨same.trans same', fun e below => ?_⟩
    rw [← sizes' e below, ← same', sizes e below]
  · rw [first.count, second.count, same, sizes depth (Nat.le_refl _)]

theorem size_window_eq_zero {sides : List Nat} {i e n : Nat} (side : sides[i]? = some 0)
    (above : e ≤ i) (below : i < e + n) : Shape.size ((sides.drop e).take n) = 0 := by
  refine Shape.size_eq_zero_of_mem (List.mem_of_getElem? (i := i - e) ?_)
  rw [List.getElem?_take_of_lt (by omega), List.getElem?_drop, Nat.add_sub_cancel' above, side]

/-- What a sequence without defects makes of an outline: its side, and then what its parts make. -/
theorem sequence_of_regular {inside : Outline → Outline}
    (regular : (o.sequence depth count inside).ragged = false) :
    ∃ met, o.meet depth [count] true = (met, true) ∧ met.ragged = o.ragged ∧
      o.sequence depth count inside =
        if count = 0 then { met with settled := true, most := depth + 1 } else inside met := by
  unfold sequence at regular ⊢
  split at regular
  case isTrue => cases regular
  case isFalse unused =>
    rw [if_neg unused]
    cases run : o.meet depth [count] true with
    | mk met agrees =>
      have shown (agrees : (o.meet depth [count] true).2 = true) := meet_of_agrees agrees
      have agreed (regular : (o.meet depth [count] true).1.ragged = false) :=
        agrees_of_regular regular
      rw [run] at regular shown agreed
      cases agrees with
      | false => cases agreed regular
      | true =>
        refine ⟨met, rfl, ?_, rfl⟩
        obtain ⟨-, ⟨-, same, -⟩ | ⟨-, same⟩⟩ := shown rfl <;> rw [show met = _ from same]

/-- The side of a sequence that agrees. -/
theorem side_of_agrees {met : Outline} (agrees : o.meet depth [count] true = (met, true))
    (long : depth ≤ o.sides.length) :
    met.sides[depth]? = some count ∧ met.sides.take depth = o.sides.take depth ∧
      depth < o.most ∧ (o.settled = true → met = o) := by
  obtain ⟨fits, shown⟩ := meet_of_agrees (congrArg Prod.snd agrees)
  rw [agrees] at shown
  obtain ⟨settled, same, inside, -⟩ | ⟨settled, same⟩ := shown <;> cases same
  · obtain ⟨rest, split⟩ := inside
    refine ⟨?_, rfl, fits, fun _ => rfl⟩
    rw [← List.head?_drop, ← split]
    rfl
  · have length : (o.sides.take depth).length = depth := by simp [long]
    refine ⟨?_, ?_, fits, fun held => ?_⟩
    · simp [length]
    · simp [length]
    · cases settled.symm.trans held

theorem clean_sequence {inside : Outline → Outline}
    (regular : (o.sequence depth count inside).ragged = false)
    (parts : ∀ o₁, (inside o₁).ragged = false → o₁.ragged = false) : o.ragged = false := by
  obtain ⟨met, -, ragged, same⟩ := sequence_of_regular regular
  rw [← ragged]
  rw [same] at regular
  split at regular
  case isTrue => exact regular
  case isFalse => exact parts met regular

/-- A sequence of parts that have as many leaves each, or of none. -/
theorem extends_sequence {inside : Outline → Outline} {leaves : Nat}
    (regular : (o.sequence depth count inside).ragged = false) (long : depth ≤ o.sides.length)
    (none : count = 0 → leaves = 0)
    (some : ∀ o₁ : Outline, count ≠ 0 → (inside o₁).ragged = false →
      depth + 1 ≤ o₁.sides.length →
      ∃ n, Extends (depth + 1) o₁ (inside o₁) n ∧ leaves = count * n) :
    Extends depth o (o.sequence depth count inside) leaves := by
  obtain ⟨met, agrees, -, result⟩ := sequence_of_regular regular
  obtain ⟨side, before, fits, same⟩ := side_of_agrees agrees long
  have long' : depth + 1 ≤ met.sides.length := (List.getElem?_eq_some_iff.mp side).1
  rw [result] at regular ⊢
  split at regular
  case isTrue empty =>
    rw [if_pos empty]
    subst empty
    refine ⟨rfl, Nat.le_succ depth, Nat.le_of_succ_le long', before, ?_, fun settled => ?_⟩
    · dsimp only
      rw [none rfl, size_window_eq_zero side (Nat.le_refl _) (by omega)]
    · cases same settled
      refine ⟨rfl, fun e below => ?_⟩
      dsimp only
      rw [size_window_eq_zero side below (by omega), size_window_eq_zero side below (by omega)]
  case isFalse nonempty =>
    rw [if_neg nonempty]
    obtain ⟨n, grown, rfl⟩ := some met nonempty regular long'
    have deep := grown.deep
    refine ⟨grown.settled, Nat.le_of_succ_le deep, Nat.le_of_succ_le grown.long, ?_, ?_,
      fun settled => ?_⟩
    · have start := congrArg (List.take depth) grown.before
      rwa [List.take_take, List.take_take, Nat.min_eq_left (Nat.le_succ _), before] at start
    · have side' : (inside met).sides[depth]? = .some count := by
        have ends := congrArg (·[depth]?) grown.before
        simpa [List.getElem?_take, side] using ends
      obtain ⟨bound, entry⟩ := List.getElem?_eq_some_iff.mp side'
      have width : (inside met).most - depth = (inside met).most - (depth + 1) + 1 := by omega
      rw [grown.count, List.drop_eq_getElem_cons bound, entry, width, List.take_succ_cons,
        Shape.size]
    · cases same settled
      obtain ⟨kept, sizes⟩ := grown.kept settled
      exact ⟨kept, fun e below => sizes e (Nat.le_succ_of_le below)⟩

end Outline

namespace Value

mutual

theorem clean_outlineAt (depth : Nat) (o : Outline) (v : Value)
    (regular : (outlineAt depth o v).ragged = false) : o.ragged = false := by
  cases v with
  | list items =>
    exact Outline.clean_sequence regular fun o₁ => clean_outlineItems (depth + 1) o₁ items
  | tuple items =>
    exact Outline.clean_sequence regular fun o₁ => clean_outlineItems (depth + 1) o₁ items
  | _ => exact Outline.clean_of_regular regular
termination_by sizeOf v

theorem clean_outlineItems (depth : Nat) (o : Outline) (items : List Value)
    (regular : (outlineItems depth o items).ragged = false) : o.ragged = false := by
  cases items with
  | nil => exact regular
  | cons v vs =>
    exact clean_outlineAt depth o v (clean_outlineItems depth (outlineAt depth o v) vs regular)
termination_by sizeOf items

end

/-- What a list or a tuple makes of an outline, by what its items make of it. -/
theorem extends_items {depth : Nat} {o : Outline} {items : List Value}
    (regular : (o.sequence depth items.length fun o => outlineItems (depth + 1) o items).ragged =
      false) (long : depth ≤ o.sides.length)
    (parts : ∀ (o : Outline) (v : Value) (vs : List Value), items = v :: vs →
      (outlineItems (depth + 1) o items).ragged = false → depth + 1 ≤ o.sides.length →
      ∃ n, Outline.Extends (depth + 1) o (outlineItems (depth + 1) o items) n ∧
        (leavesOfItems items).length = items.length * n) :
    Outline.Extends depth o
      (o.sequence depth items.length fun o => outlineItems (depth + 1) o items)
      (leavesOfItems items).length := by
  refine Outline.extends_sequence regular long ?_ ?_
  · intro empty
    rw [List.length_eq_zero_iff.mp empty]
    rfl
  · intro o₁ nonempty regular long
    cases items with
    | nil => cases nonempty rfl
    | cons v vs => exact parts o₁ v vs rfl regular long

mutual

theorem extends_outlineAt (depth : Nat) (o : Outline) (v : Value)
    (regular : (outlineAt depth o v).ragged = false) (long : depth ≤ o.sides.length) :
    Outline.Extends depth o (outlineAt depth o v) v.leaves.length := by
  cases v with
  | array a =>
    have places : (Value.array a).leaves.length = Shape.size a.shape := by
      rw [leaves, List.length_map, a.data.length_entries]
      rfl
    rw [places]
    exact Outline.extends_meet regular long
  | list items =>
    refine extends_items regular long ?_
    rintro o v vs rfl
    exact extends_outlineItems (depth + 1) o v vs
  | tuple items =>
    refine extends_items regular long ?_
    rintro o v vs rfl
    exact extends_outlineItems (depth + 1) o v vs
  | _ => exact Outline.extends_meet regular long
termination_by sizeOf v

/-- The items of a sequence have as many leaves each. -/
theorem extends_outlineItems (depth : Nat) (o : Outline) (v : Value) (vs : List Value)
    (regular : (outlineItems depth o (v :: vs)).ragged = false) (long : depth ≤ o.sides.length) :
    ∃ n, Outline.Extends depth o (outlineItems depth o (v :: vs)) n ∧
      (leavesOfItems (v :: vs)).length = (v :: vs).length * n := by
  have regular' := clean_outlineItems depth (outlineAt depth o v) vs regular
  have first := extends_outlineAt depth o v regular' long
  cases vs with
  | nil => exact ⟨_, first, by simp [leavesOfItems]⟩
  | cons v' vs =>
    obtain ⟨n, rest, total⟩ :=
      extends_outlineItems depth (outlineAt depth o v) v' vs regular first.long
    obtain ⟨whole, same⟩ := first.next rest
    refine ⟨n, whole, ?_⟩
    rw [leavesOfItems, List.length_append, total, same, List.length_cons (a := v)]
    ring
termination_by sizeOf (v :: vs)

end

/-- A sequence that is stored entry by entry has an entry for each place. -/
theorem length_leaves_of_fits {n : Nat} {v : Value}
    (regular : (outlineAt 0 { Outline.empty with most := n } v).ragged = false) :
    v.leaves.length = Shape.size ((outlineAt 0 { Outline.empty with most := n } v).sides.take
      (outlineAt 0 { Outline.empty with most := n } v).most) :=
  (extends_outlineAt 0 _ v regular (Nat.zero_le _)).count

end Value

/-! ## Stores into arrays of one kind -/

/-- Stores that fail alike, or succeed and leave the same. -/
def TakenAlike {α : Type} (x y : α × Except Fault Unit) : Prop :=
  x.2 = y.2 ∧ (x.2 = .ok () → x.1 = y.1)

namespace TakenAlike

variable {α β : Type}

theorem error (a b : α) (fault : Fault) : TakenAlike (a, .error fault) (b, .error fault) := by
  refine ⟨rfl, fun stored => ?_⟩
  cases stored

theorem map {x y : α × Except Fault Unit} (alike : TakenAlike x y) (f : α → β) :
    TakenAlike (f x.1, x.2) (f y.1, y.2) :=
  ⟨alike.1, fun stored => congrArg f (alike.2 stored)⟩

end TakenAlike

namespace NDArray

theorem overwrite_of_length_eq {α β : Type} (f : α → Except Fault β) (xs : List α)
    {olds olds' : List β} (same : olds.length = olds'.length) :
    (overwrite f olds xs).2 = (overwrite f olds' xs).2 ∧
      (olds.length ≤ xs.length → (overwrite f olds xs).2 = .ok () →
        (overwrite f olds xs).1 = (overwrite f olds' xs).1) := by
  induction xs generalizing olds olds' with
  | nil =>
    have unchanged (olds : List β) : overwrite f olds [] = (olds, .ok ()) := by cases olds <;> rfl
    rw [unchanged, unchanged]
    refine ⟨rfl, fun short _ => ?_⟩
    have empty := List.length_eq_zero_iff.mp (Nat.le_zero.mp short)
    rw [empty] at same ⊢
    exact (List.length_eq_zero_iff.mp same.symm).symm
  | cons x xs ih =>
    cases olds with
    | nil =>
      cases List.length_eq_zero_iff.mp same.symm
      exact ⟨rfl, fun _ _ => rfl⟩
    | cons old olds =>
      obtain ⟨old', olds', rfl⟩ := List.exists_cons_of_length_eq_add_one same.symm
      obtain ⟨result, content⟩ := ih (Nat.succ.inj same)
      unfold overwrite
      cases f x with
      | error fault => exact ⟨rfl, fun _ => (TakenAlike.error _ _ fault).2⟩
      | ok y => exact ⟨result, fun long stored => congrArg (y :: ·)
          (content (Nat.le_of_succ_le_succ long) stored)⟩

variable {a b : NDArray}

theorem overwritten_of_kind_eq {α : Type} (f : α → Except Fault Scalar) (xs : List α)
    (dtype : a.dtype = b.dtype) (shape : a.shape = b.shape) :
    (a.overwritten f xs).2 = (b.overwritten f xs).2 ∧
      (Shape.size a.shape ≤ xs.length → (a.overwritten f xs).2 = .ok () →
        (a.overwritten f xs).1 = (b.overwritten f xs).1) := by
  obtain ⟨d, s, olds, places⟩ := a
  obtain ⟨e, t, olds', places'⟩ := b
  cases dtype
  cases shape
  obtain ⟨result, content⟩ := overwrite_of_length_eq f xs (places.trans places'.symm)
  refine ⟨result, fun long stored => ?_⟩
  have same := content (places.trans_le long) stored
  simp only [overwritten, NDArray.shape, same]

theorem store_of_kind_eq (source : NDArray) (dtype : a.dtype = b.dtype)
    (shape : a.shape = b.shape) :
    TakenAlike (a.store source) (b.store source) := by
  have full {xs : List Scalar} (places : xs.length = Shape.size a.shape) :=
    overwritten_of_kind_eq (Scalar.convert a.dtype source.dtype) xs dtype shape
  obtain ⟨d, s, olds, places⟩ := a
  obtain ⟨e, t, olds', places'⟩ := b
  cases dtype
  cases shape
  unfold store
  dsimp only [NDArray.shape]
  split
  case h_1 => exact .error _ _ _
  case h_2 xs places _ => exact ⟨(full places).1, (full places).2 places.ge⟩

/-! ## Stores of an array into one of its kind -/

/-- An array whose entries are values of its element type. -/
def Rounded (a : NDArray) : Prop :=
  ∀ x ∈ a.data.entries, x.cast a.dtype = x

theorem overwrite_eq_source {α : Type} {f : α → Except Fault α} {xs olds : List α}
    (kept : ∀ x ∈ xs, f x = .ok x) (same : olds.length = xs.length) :
    overwrite f olds xs = (xs, .ok ()) := by
  induction xs generalizing olds with
  | nil =>
    cases List.length_eq_zero_iff.mp same
    rfl
  | cons x xs ih =>
    obtain ⟨old, olds, rfl⟩ := List.exists_cons_of_length_eq_add_one same
    have rest := ih (fun y member => kept y (List.mem_cons_of_mem x member)) (Nat.succ.inj same)
    simp only [overwrite, kept x List.mem_cons_self, rest]

/-- A floating array is stored unchanged. -/
theorem store_of_rounded (floating : b.dtype.isInexact = true) (rounded : b.Rounded)
    (dtype : a.dtype = b.dtype) (shape : a.shape = b.shape) : a.store b = (b, .ok ()) := by
  obtain ⟨d, s, olds, places⟩ := a
  obtain ⟨e, t, xs, places'⟩ := b
  cases dtype
  cases shape
  have kept (x : Scalar) (member : x ∈ xs) : Scalar.convert d d x = .ok x := by
    have unchanged : x.cast d = x := rounded x member
    cases d with
    | real p | complex p => exact congrArg Except.ok unchanged
    | _ => cases floating
  have written := overwrite_eq_source kept (places.trans places'.symm)
  have reshaped : Tensor.ofShape? (dropOnes s.length s) xs = some ⟨s, xs, places'⟩ := by
    rw [dropOnes_length_self]
    simp [Tensor.ofShape?, places']
  have filled := Tensor.broadcastTo?_of_shape_eq (a := ⟨s, xs, places'⟩) rfl
  simp only [store, NDArray.shape, reshaped, Option.bind_some, filled, overwritten, written]

end NDArray

namespace Value

/-- Arrays of one element type and one shape. -/
def SameKind (v w : Value) : Prop :=
  ∃ a b, v = .array a ∧ w = .array b ∧ a.dtype = b.dtype ∧ a.shape = b.shape

theorem storeItems_of_kind_eq {a b : NDArray} (items : Value) (dtype : a.dtype = b.dtype)
    (shape : a.shape = b.shape) :
    TakenAlike (storeItems a items) (storeItems b items) := by
  unfold storeItems
  rw [← dtype, ← shape]
  dsimp only
  split_ifs with ragged fits
  · exact .error _ _ _
  · obtain ⟨same, content⟩ := NDArray.overwritten_of_kind_eq (entryAs a.dtype) items.leaves dtype
      shape
    have places := length_leaves_of_fits (Bool.not_eq_true _ ▸ ragged)
    rw [fits] at places
    exact ⟨same, content places.ge⟩
  · split
    case h_1 => exact .error _ _ _
    case h_2 =>
      split
      case h_1 => exact NDArray.store_of_kind_eq _ dtype shape
      case h_2 => exact .error _ _ _

theorem storeEntry_of_kind_eq {a b : NDArray} (entry : DType → Except Fault Scalar)
    (dtype : a.dtype = b.dtype) (shape : a.shape = b.shape) :
    let stored (c : NDArray) : NDArray × Except Fault Unit :=
      match entry c.dtype with
      | .ok x => c.store (.ofScalar c.dtype x)
      | .error fault => (c, .error fault)
    TakenAlike (stored a) (stored b) := by
  intro stored
  dsimp only [stored]
  rw [← dtype]
  cases entry a.dtype with
  | ok x => exact NDArray.store_of_kind_eq _ dtype shape
  | error fault => exact .error _ _ fault

/-- A store leaves arrays of one kind as arrays of that kind. -/
theorem sameKind_store {v w : Value} (kin : SameKind v w) (source : Value) :
    SameKind (Calculus.store v source).1 (Calculus.store w source).1 := by
  obtain ⟨a, b, rfl, rfl, dtype, shape⟩ := kin
  obtain ⟨a', stored, dtype₁, shape₁⟩ := exists_store_array a source
  obtain ⟨b', stored', dtype₂, shape₂⟩ := exists_store_array b source
  exact ⟨a', b', stored, stored', by rw [dtype₁, dtype₂, dtype], by rw [shape₁, shape₂, shape]⟩

/-- Arrays of one kind take every store alike. Once it succeeded, they are the same. -/
theorem store_of_sameKind {v w : Value} (kin : SameKind v w) (source : Value) :
    TakenAlike (Calculus.store v source) (Calculus.store w source) := by
  obtain ⟨a, b, rfl, rfl, dtype, shape⟩ := kin
  cases source with
  | array c => exact (NDArray.store_of_kind_eq c dtype shape).map Value.array
  | scalar d x => exact (NDArray.store_of_kind_eq _ dtype shape).map Value.array
  | list items => exact (storeItems_of_kind_eq (.list items) dtype shape).map Value.array
  | tuple items => exact (storeItems_of_kind_eq (.tuple items) dtype shape).map Value.array
  | _ => exact (storeEntry_of_kind_eq (entryAs · _) dtype shape).map Value.array

end Value

end ProxGrad
