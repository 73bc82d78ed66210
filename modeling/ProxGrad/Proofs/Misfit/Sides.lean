import ProxGrad.Proofs.ArrayForms
import ProxGrad.Session.Instances

/-!
# Sides of points

The shape that a least-squares term is given is judged by the product of its sides alone, which is
taken in words of 64 bits. What a gradient is brought to later are the sides themselves. For sides
that are literal integers this module says what the product comes to, and which of them an array can
be brought to.
-/

set_option autoImplicit false

namespace ProxGrad

namespace Shape

/-- Sides as literals. -/
def literals (sides : List ℤ) : List Value :=
  sides.map Value.int

/-- Integers of a signed word. -/
def Words (sides : List ℤ) : Prop :=
  ∀ i ∈ sides, DType.holds true 64 i = true

instance (sides : List ℤ) : Decidable (Words sides) :=
  inferInstanceAs (Decidable (∀ i ∈ sides, DType.holds true 64 i = true))

/-- The sides of a shape with so many entries, and not more sides than an array has. -/
structure Names (sides : List ℤ) (n : ℕ) : Prop where
  rank : sides.length ≤ Outline.limit
  nonneg : ∀ i ∈ sides, 0 ≤ i
  prod : sides.prod = n

theorem prod_map_natCast (sides : List ℕ) :
    (sides.map ((↑) : ℕ → ℤ)).prod = (Shape.size sides : ℤ) := by
  induction sides with
  | nil => rfl
  | cons n sides ih => rw [List.map_cons, List.prod_cons, ih, Shape.size, Nat.cast_mul]

theorem map_toNat_natCast {sides : List ℤ} (nonneg : ∀ i ∈ sides, 0 ≤ i) :
    (sides.map Int.toNat).map ((↑) : ℕ → ℤ) = sides := by
  rw [List.map_map]
  exact (List.map_congr_left fun i member => Int.toNat_of_nonneg (nonneg i member)).trans
    (List.map_id sides)

theorem prod_eq_size_toNat {sides : List ℤ} (nonneg : ∀ i ∈ sides, 0 ≤ i) :
    sides.prod = (Shape.size (sides.map Int.toNat) : ℤ) := by
  rw [← prod_map_natCast, map_toNat_natCast nonneg]

theorem prod_eq_negative_mul (sides : List ℤ) :
    sides.prod = (sides.filter (· < 0)).prod * (sides.filter (0 ≤ ·)).prod := by
  induction sides with
  | nil => rfl
  | cons i sides ih =>
    by_cases negative : i < 0
    · rw [List.filter_cons_of_pos (by simpa using negative),
        List.filter_cons_of_neg (by simpa using negative), List.prod_cons, List.prod_cons, ih,
        mul_assoc]
    · rw [List.filter_cons_of_neg (by simpa using negative),
        List.filter_cons_of_pos (by simpa using negative), List.prod_cons, List.prod_cons, ih,
        mul_left_comm]

end Shape

namespace NDArray

variable {a b : NDArray} {sides : List ℕ}

theorem exists_reshape (size : a.size = Shape.size sides) :
    ∃ b, a.reshape sides = .ok b ∧ b.dtype = a.dtype ∧ b.shape = sides := by
  have places : a.data.entries.length = Shape.size sides := size
  refine ⟨⟨a.dtype, ⟨sides, a.data.entries, places⟩⟩, ?_, rfl, rfl⟩
  rw [reshape, Tensor.reshape?, Tensor.ofShape?, dif_pos places]

theorem size_of_reshape (reshaped : a.reshape sides = .ok b) : a.size = Shape.size sides := by
  by_contra different
  have places : ¬ a.data.entries.length = Shape.size sides := different
  rw [reshape, Tensor.reshape?, Tensor.ofShape?, dif_neg places] at reshaped
  cases reshaped

end NDArray

/-! ## The array form of literal integers -/

namespace Value

theorem outlineItems_ints (n : ℕ) (sides : List ℤ) :
    outlineItems 1 ⟨[n], 1, true, false⟩ (Shape.literals sides) = ⟨[n], 1, true, false⟩ := by
  induction sides with
  | nil => rfl
  | cons i sides ih => exact ih

theorem outline_ints (sides : List ℤ) :
    outline (.tuple (Shape.literals sides)) = ⟨[sides.length], 1, true, false⟩ := by
  have length : (Shape.literals sides).length = sides.length := List.length_map _
  cases sides with
  | nil => rfl
  | cons i sides =>
    change outlineItems 1 ⟨[(Shape.literals (i :: sides)).length], 1, true, false⟩
      (Shape.literals sides) = _
    rw [length, outlineItems_ints]

theorem entriesOfItems_ints {sides : List ℤ} (words : Shape.Words sides) :
    entriesOfItems .int64 [] (Shape.literals sides) = .ok (sides.map Scalar.int) := by
  induction sides with
  | nil => rfl
  | cons i sides ih =>
    have entry : entryAs .int64 (.int i) = .ok (.int i) :=
      if_pos (words i List.mem_cons_self)
    have rest := ih fun j member => words j (List.mem_cons_of_mem i member)
    change (do
      let first ← (do return [← entryAs .int64 (.int i)])
      return first ++ (← entriesOfItems .int64 [] (Shape.literals sides))) = _
    rw [entry, rest]
    rfl

theorem entryTypes_ints {sides : List ℤ} (words : Shape.Words sides) :
    entryTypesOfList (Shape.literals sides) = List.replicate sides.length .int64 := by
  induction sides with
  | nil => rfl
  | cons i sides ih =>
    have own : (Scalar.int i).ownType = .int64 := if_pos (words i List.mem_cons_self)
    have rest := ih fun j member => words j (List.mem_cons_of_mem i member)
    change [(Scalar.int i).ownType] ++ entryTypesOfList (Shape.literals sides) = _
    rw [own, rest]
    rfl

theorem joinTypes_replicate_int64 (n : ℕ) :
    joinTypes (List.replicate (n + 1) .int64) = .int64 := by
  rw [List.replicate_succ, joinTypes]
  induction n with
  | zero => rfl
  | succ n ih => exact ih

/-- Some words side by side. -/
theorem toArray_ints {i : ℤ} {sides : List ℤ} (words : Shape.Words (i :: sides)) :
    ∃ data : Tensor Scalar, data.entries = (i :: sides).map Scalar.int ∧
      (Value.tuple (Shape.literals (i :: sides))).toArray none = .ok ⟨.int64, data⟩ := by
  have type : joinTypes (entryTypes (.tuple (Shape.literals (i :: sides)))) = .int64 := by
    rw [entryTypes, entryTypes_ints words]
    exact joinTypes_replicate_int64 sides.length
  have entries : entriesUnder .int64 [(i :: sides).length]
      (.tuple (Shape.literals (i :: sides))) = .ok ((i :: sides).map Scalar.int) := by
    rw [entriesUnder, entriesOfItems_ints words]
  have places : ((i :: sides).map Scalar.int).length = Shape.size [(i :: sides).length] := by
    simp [Shape.size]
  refine ⟨⟨_, _, places⟩, rfl, ?_⟩
  have outlined := outline_ints (i :: sides)
  simp only [toArray, outlined, type, Option.getD_none, List.take_succ_cons, List.take_zero,
    entries, Tensor.ofShape?, places, dite_true, bind, Except.bind, pure, Except.pure]
  rfl

end Value

/-! ## Their product -/

namespace Session

open Value

theorem wrap_of_holds {i : ℤ} (word : DType.holds true 64 i = true) :
    DType.wrap true 64 i = i := by
  rw [DType.holds_signed] at word
  change Int.bmod i (2 ^ 64) = i
  refine Int.bmod_eq_of_le ?_ ?_ <;> omega

theorem map_cast_ints {sides : List ℤ} (words : Shape.Words sides) :
    (sides.map Scalar.int).map (Scalar.cast .int64) = sides.map Scalar.int := by
  rw [List.map_map]
  refine List.map_congr_left fun i member => ?_
  exact congrArg Scalar.int (wrap_of_holds (words i member))

theorem foldl_mul_ints (sides : List ℤ) (k : ℤ) :
    (sides.map Scalar.int).foldl (Scalar.apply .int64 .mul) (.int (Int.bmod k (2 ^ 64))) =
      .int (Int.bmod (k * sides.prod) (2 ^ 64)) := by
  induction sides generalizing k with
  | nil => rw [List.prod_nil, mul_one]; rfl
  | cons i sides ih =>
    have step : Scalar.apply .int64 .mul (.int (Int.bmod k (2 ^ 64))) (.int i) =
        .int (Int.bmod (k * i) (2 ^ 64)) :=
      congrArg Scalar.int (Int.bmod_mul_bmod ..)
    rw [List.map_cons, List.foldl_cons, step, ih, List.prod_cons, mul_assoc]

/-- The count of words is their product, wrapped to a word once. -/
theorem sidesCount_ints {sides : List ℤ} (words : Shape.Words sides) :
    sidesCount (Shape.literals sides) = .ok (Int.bmod sides.prod (2 ^ 64)) := by
  cases sides with
  | nil => rfl
  | cons i sides =>
    obtain ⟨data, entries, form⟩ := toArray_ints words
    have kept : (data.map (Scalar.cast .int64)).entries = (i :: sides).map Scalar.int := by
      change data.entries.map (Scalar.cast .int64) = _
      rw [entries, map_cast_ints words]
    have total := foldl_mul_ints (i :: sides) 1
    rw [one_mul] at total
    have product : sidesProduct (Shape.literals (i :: sides)) =
        .ok (.int (Int.bmod (i :: sides).prod (2 ^ 64))) := by
      rw [sidesProduct, form]
      change Except.ok ((data.map (Scalar.cast .int64)).entries.foldl (Scalar.apply .int64 .mul)
        (.int (Int.bmod 1 (2 ^ 64)))) = _
      rw [kept, total]
    rw [sidesCount, product]
    rfl

/-! ## Shapes that an array can be brought to -/

/-- Items that are one integer each, as literals or as numbers of an integer type. -/
def AreIntegers (items : List Value) (sides : List ℤ) : Prop :=
  items.map Value.integer? = sides.map some

theorem areIntegers_literals (sides : List ℤ) : AreIntegers (Shape.literals sides) sides := by
  rw [AreIntegers, Shape.literals, List.map_map]
  rfl

theorem AreIntegers.eq_of_literals {sides sides' : List ℤ}
    (integers : AreIntegers (Shape.literals sides) sides') : sides' = sides :=
  (List.map_injective_iff.mpr (Option.some_injective ℤ))
    (integers.symm.trans (areIntegers_literals sides))

theorem AreIntegers.length_eq {items : List Value} {sides : List ℤ}
    (integers : AreIntegers items sides) : items.length = sides.length := by
  simpa only [List.length_map] using congrArg List.length integers

theorem mapM_eq_ok_iff {f : Value → Except Fault ℤ}
    (each : ∀ v i, f v = .ok i ↔ v.integer? = some i ∧ DType.holds true 64 i = true)
    {items : List Value} {sides : List ℤ} :
    items.mapM f = .ok sides ↔ AreIntegers items sides ∧ Shape.Words sides := by
  induction items generalizing sides with
  | nil =>
    refine ⟨fun found => ?_, fun named => ?_⟩
    · cases found
      exact ⟨rfl, nofun⟩
    · rw [List.map_eq_nil_iff.mp named.1.symm]
      rfl
  | cons v items ih =>
    rw [List.mapM_cons]
    refine ⟨fun found => ?_, fun named => ?_⟩
    · obtain ⟨i, first, afterFirst⟩ := exists_of_bind_eq_ok found
      obtain ⟨rest, others, last⟩ := exists_of_bind_eq_ok afterFirst
      cases last
      obtain ⟨integers, words⟩ := ih.mp others
      obtain ⟨integer, word⟩ := (each v i).mp first
      exact ⟨congrArg₂ List.cons integer integers, List.forall_mem_cons.mpr ⟨word, words⟩⟩
    · obtain ⟨integers, words⟩ := named
      cases sides with
      | nil => cases integers
      | cons i sides =>
        obtain ⟨integer, integers⟩ := List.cons.inj integers
        obtain ⟨word, words⟩ := List.forall_mem_cons.mp words
        rw [(each v i).mpr ⟨integer, word⟩, ih.mpr ⟨integers, words⟩]
        rfl

/-- A tuple names its items where they are few and each is a word. -/
theorem sidesOf_tuple_eq_ok_iff {items : List Value} {sides : List ℤ} :
    sidesOf (.tuple items) = .ok sides ↔
      items.length ≤ Outline.limit ∧ AreIntegers items sides ∧ Shape.Words sides := by
  rw [sidesOf]
  split
  · next long => exact iff_of_false nofun fun named => absurd named.1 (Nat.not_le_of_gt long)
  · next short =>
    rw [mapM_eq_ok_iff, iff_and_self]
    · exact fun _ => Nat.le_of_not_gt short
    · intro v i
      cases v.integer? with
      | none => exact iff_of_false nofun nofun
      | some j =>
        dsimp only
        split
        · next word => grind
        · next other => grind

theorem closedSides_of_nonneg {sides : List ℤ} (nonneg : ∀ i ∈ sides, 0 ≤ i) (count : ℕ) :
    closedSides count sides = .ok (sides.map Int.toNat) := by
  have none : sides.filter (· < 0) = [] := by
    rw [List.filter_eq_nil_iff]
    intro i member
    simpa using nonneg i member
  rw [closedSides, none]

/-- An array keeps its entries under sides of its size. -/
theorem reshapeTo_of_names {items : List Value} {sides : List ℤ}
    (integers : AreIntegers items sides) (words : Shape.Words sides) {a : NDArray}
    (named : Shape.Names sides a.size) :
    ∃ b, reshapeTo (.tuple items) (.array a) = .ok (.array b) ∧
      b.dtype = a.dtype ∧ b.shape = sides.map Int.toNat := by
  obtain ⟨rank, nonneg, size⟩ := named
  rw [Shape.prod_eq_size_toNat nonneg] at size
  have places : a.size = Shape.size (sides.map Int.toNat) := by exact_mod_cast size.symm
  obtain ⟨b, reshaped, kind⟩ := NDArray.exists_reshape places
  have few : items.length ≤ Outline.limit := integers.length_eq ▸ rank
  refine ⟨b, ?_, kind⟩
  change (do return Value.array (← a.reshape (← closedSides a.size
    (← sidesOf (.tuple items))))) = _
  rw [sidesOf_tuple_eq_ok_iff.mpr ⟨few, integers, words⟩]
  change (do return Value.array (← a.reshape (← closedSides a.size sides))) = _
  rw [closedSides_of_nonneg nonneg]
  change (do return Value.array (← a.reshape (sides.map Int.toNat))) = _
  rw [reshaped]
  rfl

/-- What sides may be open in: none are, or one is, written as less than zero. -/
theorem closedSides_eq_ok {count : ℕ} {sides : List ℤ} {closed : List ℕ}
    (found : closedSides count sides = .ok closed) :
    (∀ i ∈ sides, 0 ≤ i) ∧ closed = sides.map Int.toNat ∨
      ∃ known : ℕ, sides.prod = -known ∧ 0 < known ∧ known ∣ count := by
  unfold closedSides at found
  split at found
  case h_1 none =>
    refine .inl ⟨fun i member => ?_, (Except.ok.inj found).symm⟩
    have outside := List.filter_eq_nil_iff.mp none i member
    simpa using outside
  case h_2 one =>
    refine .inr ⟨Shape.size ((sides.filter (0 ≤ ·)).map Int.toNat), ?_, ?_⟩
    · rw [Shape.prod_eq_negative_mul, one,
        Shape.prod_eq_size_toNat fun i member => of_decide_eq_true (List.mem_filter.mp member).2,
        List.prod_singleton, neg_one_mul]
    · dsimp only at found
      split at found
      case isTrue => cases found
      case isFalse divides =>
        simp only [ne_eq, Bool.or_eq_true, decide_eq_true_eq, not_or, not_not] at divides
        exact ⟨Nat.pos_of_ne_zero divides.1, Nat.dvd_of_mod_eq_zero divides.2⟩
  case h_3 => cases found

/-- What an array can be brought to are integers, and the sides of a shape of its size unless one
of them is open. -/
theorem exists_of_reshapeTo {items : List Value} {a : NDArray} {v : Value}
    (shaped : reshapeTo (.tuple items) (.array a) = .ok v) :
    ∃ sides, AreIntegers items sides ∧ Shape.Words sides ∧
      (Shape.Names sides a.size ∨ ∃ known : ℕ, sides.prod = -known ∧ 0 < known ∧ known ∣ a.size) := by
  change (do return Value.array (← a.reshape (← closedSides a.size
    (← sidesOf (.tuple items))))) = Except.ok v at shaped
  obtain ⟨sides, named, afterSides⟩ := exists_of_bind_eq_ok shaped
  obtain ⟨closed, found, afterClosed⟩ := exists_of_bind_eq_ok afterSides
  obtain ⟨b, reshaped, -⟩ := exists_of_bind_eq_ok afterClosed
  obtain ⟨few, integers, words⟩ := sidesOf_tuple_eq_ok_iff.mp named
  refine ⟨sides, integers, words, (closedSides_eq_ok found).imp ?_ id⟩
  rintro ⟨nonneg, rfl⟩
  refine ⟨integers.length_eq ▸ few, nonneg, ?_⟩
  rw [Shape.prod_eq_size_toNat nonneg, NDArray.size_of_reshape reshaped]

/-- Sides that an array with some entries can be brought to, and whose product is the number of
these up to whole words, have exactly this product. An open side is none: the product with it would
be below zero, and miss the number by less than a word. -/
theorem names_of_reshapeTo {sides : List ℤ} {a : NDArray} {v : Value} (filled : 0 < a.size)
    (few : a.size < 2 ^ 63) (count : sidesCount (Shape.literals sides) = .ok a.size)
    (shaped : reshapeTo (.tuple (Shape.literals sides)) (.array a) = .ok v) :
    Shape.Names sides a.size := by
  obtain ⟨sides', integers, words, named | ⟨known, product, positive, divides⟩⟩ :=
    exists_of_reshapeTo shaped
  all_goals obtain rfl := integers.eq_of_literals
  · exact named
  · rw [sidesCount_ints words] at count
    have wrapped := Except.ok.inj count
    have bound := Nat.le_of_dvd filled divides
    rw [product, Int.bmod] at wrapped
    split at wrapped <;> omega

end Session

end ProxGrad
