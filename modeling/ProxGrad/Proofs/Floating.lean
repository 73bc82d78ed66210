import ProxGrad.Proofs.Broadcast
import ProxGrad.Proofs.Rounding
import ProxGrad.Solver.Momentum
import ProxGrad.Value.Arithmetic

/-!
# Arithmetic of floating arrays

An operation on arrays of one floating element type and one shape gives such an array again, and so
does one of an array with a number of its real type. Rounding has no faults: what is out of range
becomes infinite, and what is not defined a NaN.
-/

set_option autoImplicit false

namespace ProxGrad

/-! ## Element types -/

namespace DType

theorem promote_self {d : DType} (floating : d.isInexact = true) : d.promote d = d := by
  cases d with
  | real p | complex p => cases p <;> rfl
  | _ => cases floating

theorem promote_realPart {d : DType} (floating : d.isInexact = true) :
    d.promote d.realPart = d := by
  cases d with
  | real p | complex p => cases p <;> rfl
  | _ => cases floating

theorem realPart_promote {d : DType} (floating : d.isInexact = true) :
    d.realPart.promote d = d := by
  cases d with
  | real p | complex p => cases p <;> rfl
  | _ => cases floating

theorem isInexact_realPart {d : DType} (floating : d.isInexact = true) :
    d.realPart.isInexact = true := by
  cases d with
  | real p | complex p => rfl
  | _ => cases floating

theorem exists_realPart {d : DType} (floating : d.isInexact = true) :
    ∃ p, d.realPart = .real p := by
  cases d with
  | real p | complex p => exact ⟨p, rfl⟩
  | _ => cases floating

end DType

namespace NDArray

variable {a b : NDArray} {d e : DType} {s t u : List Nat}

theorem size_eq_of_shape {k : Nat} (side : a.shape = [k]) : a.size = k := by
  have length := a.data.length_entries
  rw [show a.data.shape = [k] from side, Shape.size, Shape.size, Nat.mul_one] at length
  exact length

/-- The shapes of arrays that are combined without repeating sides: the same, or of one number. -/
inductive Meet : List Nat → List Nat → List Nat → Prop
  | same (s : List Nat) : Meet s s s
  | left (s : List Nat) : Meet [] s s
  | right (s : List Nat) : Meet s [] s

theorem exists_eq_scalar {α : Type} {t : Tensor α} (numeral : t.shape = []) :
    ∃ x, t = .scalar x := by
  obtain ⟨shape, entries, length⟩ := t
  cases numeral
  obtain ⟨x, rfl⟩ := List.length_eq_one_iff.mp length
  exact ⟨x, rfl⟩

theorem exists_pairs (meet : Meet a.shape b.shape u) :
    ∃ pairs, a.pairs b = .ok pairs ∧ pairs.shape = u := by
  obtain ⟨d, x⟩ := a
  obtain ⟨e, y⟩ := b
  simp only [NDArray.shape] at meet
  unfold NDArray.pairs
  generalize first : x.shape = s at meet
  generalize second : y.shape = t at meet
  cases meet with
  | same =>
    rw [Tensor.zipWith?_of_shape_eq _ (first.trans second.symm)]
    exact ⟨_, rfl, second⟩
  | left =>
    obtain ⟨n, rfl⟩ := exists_eq_scalar first
    rw [Tensor.scalar_zipWith?]
    exact ⟨_, rfl, second⟩
  | right =>
    obtain ⟨n, rfl⟩ := exists_eq_scalar second
    rw [Tensor.zipWith?_scalar]
    exact ⟨_, rfl, first⟩

theorem convertTo_of_isInexact (target : DType) (floating : a.dtype.isInexact = true) :
    a.convertTo target = .ok ⟨target, a.data.map (Scalar.cast target)⟩ := by
  obtain ⟨d, x⟩ := a
  cases d with
  | real p | complex p => rfl
  | _ => cases floating

/-- An operation on floating arrays has a result. -/
theorem exists_binary (op : Scalar.Op) (left : a.dtype.isInexact = true)
    (right : b.dtype.isInexact = true) (common : (a.dtype.promote b.dtype).isInexact = true)
    (meet : Meet a.shape b.shape u) :
    ∃ c, binary op a b = .ok c ∧ c.dtype = a.dtype.promote b.dtype ∧ c.shape = u := by
  generalize joined : a.dtype.promote b.dtype = d at common
  obtain ⟨pairs, paired, shaped⟩ :=
    exists_pairs (a := ⟨d, a.data.map (Scalar.cast d)⟩) (b := ⟨d, b.data.map (Scalar.cast d)⟩) meet
  have result : Scalar.resultType op d = .ok d := by
    cases d with
    | real p | complex p => cases op <;> rfl
    | _ => cases common
  have entries : d ≠ .object := by rintro rfl; cases common
  refine ⟨⟨d, pairs.map fun pair => Scalar.apply d op pair.1 pair.2⟩, ?_, rfl, shaped⟩
  unfold binary
  rw [joined]
  split
  case h_1 text _ => rw [text] at left; cases left
  case h_2 =>
    simp only [result, convertTo_of_isInexact d left, convertTo_of_isInexact d right,
      if_neg entries, paired, bind, Except.bind, pure, Except.pure]

/-! Stores keep the type and the shape of their destination. -/

theorem dtype_store (a b : NDArray) : (a.store b).1.dtype = a.dtype := by
  unfold NDArray.store
  dsimp only
  split <;> rfl

theorem shape_store (a b : NDArray) : (a.store b).1.shape = a.shape := by
  unfold NDArray.store
  dsimp only
  split <;> rfl

theorem overwrite_eq_ok {α β : Type} {f : α → Except Fault β} (converts : ∀ x, ∃ y, f x = .ok y)
    (olds : List β) (xs : List α) : (overwrite f olds xs).2 = .ok () := by
  fun_induction overwrite f olds xs with
  | case1 old olds x xs fault failed =>
    obtain ⟨y, converted⟩ := converts x
    cases failed.symm.trans converted
  | case2 old olds x xs y _ ys result run ih => simpa [run] using ih
  | case3 => rfl

/-- A floating array of the same shape is stored without faults. -/
theorem store_of_shape_eq (floating : b.dtype.isInexact = true) (same : b.shape = a.shape) :
    (a.store b).2 = .ok () := by
  have converts (x : Scalar) : ∃ y, Scalar.convert a.dtype b.dtype x = .ok y := by
    generalize b.dtype = e at floating
    cases e with
    | real p | complex p => exact ⟨_, rfl⟩
    | _ => cases floating
  have reshaped : Tensor.ofShape? (dropOnes a.shape.length b.shape) b.data.entries =
      some b.data := by
    rw [same, dropOnes_length_self, ← same]
    simp [Tensor.ofShape?, NDArray.shape, b.data.length_entries]
  have filled := Tensor.broadcastTo?_of_shape_eq (a := b.data) same
  simp only [NDArray.store, reshaped, Option.bind_some, filled]
  exact overwrite_eq_ok converts _ _

end NDArray

/-! ## Values of one element type and shape -/

namespace Value

variable {a b v : Value} {d e : DType} {s t u : List Nat}

/-- An array of an element type and a shape, or a number of that type where there are no sides. -/
def IsArray (d : DType) (s : List Nat) (v : Value) : Prop :=
  ∃ a, v.array? = .ok a ∧ a.dtype = d ∧ a.shape = s

theorem isArray_array (a : NDArray) : (Value.array a).IsArray a.dtype a.shape :=
  ⟨a, rfl, rfl, rfl⟩

theorem isArray_scalar (d : DType) (x : Scalar) : (Value.scalar d x).IsArray d [] :=
  ⟨.ofScalar d x, rfl, rfl, rfl⟩

theorem isArray_ofResult {r : NDArray} (floating : r.dtype.isInexact = true) :
    (ofResult r).IsArray r.dtype r.shape := by
  have entries : r.dtype ≠ .object := by
    intro same
    rw [same] at floating
    cases floating
  unfold ofResult
  split
  case h_1 x numeral single =>
    rw [if_neg entries, numeral]
    exact isArray_scalar r.dtype x
  case h_2 => exact isArray_array r

theorem IsArray.toOperand (given : v.IsArray d s) :
    ∃ a, v.toOperand = .ok (.array a) ∧ a.dtype = d ∧ a.shape = s := by
  obtain ⟨a, taken, dtype, shape⟩ := given
  cases v with
  | scalar | array =>
    cases taken
    exact ⟨_, rfl, dtype, shape⟩
  | _ => cases taken

theorem IsArray.hasEntries (given : v.IsArray d s) : v.hasEntries = true := by
  obtain ⟨a, taken, -, -⟩ := given
  cases v with
  | scalar | array => rfl
  | _ => cases taken

theorem IsArray.isSequence (given : v.IsArray d s) : v.isSequence = false := by
  obtain ⟨a, taken, -, -⟩ := given
  cases v with
  | scalar | array => rfl
  | _ => cases taken

theorem isRepetition_eq_false (left : a.isSequence = false) (right : b.isSequence = false) :
    isRepetition a b = false := by
  unfold isRepetition
  split
  · exact right
  · exact left
  · rfl

/-- The arithmetic of a pair of operands, once they are floating arrays that meet. -/
theorem exists_arithmetic {x y : NDArray} (op : Scalar.Op) (paired : operandPair a b = .ok (x, y))
    (numeric : isRepetition a b = false) (entered : (a.hasEntries || b.hasEntries) = true)
    (left : x.dtype.isInexact = true) (right : y.dtype.isInexact = true)
    (common : (x.dtype.promote y.dtype).isInexact = true) (meet : NDArray.Meet x.shape y.shape u) :
    ∃ r, arithmetic op a b = .ok r ∧ r.IsArray (x.dtype.promote y.dtype) u := by
  obtain ⟨c, computed, dtype, shape⟩ := NDArray.exists_binary op left right common meet
  refine ⟨ofResult c, ?_, ?_⟩
  · simp only [arithmetic, numeric, entered, paired, computed, Bool.and_false, Bool.false_eq_true,
      ↓reduceIte, bind, Except.bind, pure, Except.pure]
  · rw [← dtype, ← shape]
    exact isArray_ofResult (dtype ▸ common)

theorem IsArray.arithmetic (op : Scalar.Op) (left : a.IsArray d s) (right : b.IsArray e t)
    (first : d.isInexact = true) (second : e.isInexact = true)
    (common : (d.promote e).isInexact = true) (meet : NDArray.Meet s t u) :
    ∃ r, arithmetic op a b = .ok r ∧ r.IsArray (d.promote e) u := by
  obtain ⟨x, seen, rfl, rfl⟩ := left.toOperand
  obtain ⟨y, seen', rfl, rfl⟩ := right.toOperand
  refine exists_arithmetic op ?_ (isRepetition_eq_false left.isSequence right.isSequence)
    (by rw [left.hasEntries]; rfl) first second common meet
  rw [operandPair, seen, seen']
  rfl

/-- Arrays of one type and shape. -/
theorem IsArray.arithmetic_same (op : Scalar.Op) (left : a.IsArray d s) (right : b.IsArray d s)
    (floating : d.isInexact = true) : ∃ r, Value.arithmetic op a b = .ok r ∧ r.IsArray d s := by
  have joined := DType.promote_self floating
  have result := left.arithmetic op right floating floating (by rw [joined]; exact floating)
    (.same s)
  rwa [joined] at result

/-- An array with a number of its real type. -/
theorem IsArray.arithmetic_number (op : Scalar.Op) (left : a.IsArray d s)
    (right : b.IsArray d.realPart []) (floating : d.isInexact = true) :
    ∃ r, Value.arithmetic op a b = .ok r ∧ r.IsArray d s := by
  have joined := DType.promote_realPart floating
  have result := left.arithmetic op right floating (DType.isInexact_realPart floating)
    (by rw [joined]; exact floating) (.right s)
  rwa [joined] at result

/-- A number with an array whose real type it has. -/
theorem IsArray.number_arithmetic (op : Scalar.Op) (left : a.IsArray d.realPart [])
    (right : b.IsArray d s) (floating : d.isInexact = true) :
    ∃ r, Value.arithmetic op a b = .ok r ∧ r.IsArray d s := by
  have joined := DType.realPart_promote floating
  have result := left.arithmetic op right (DType.isInexact_realPart floating) floating
    (by rw [joined]; exact floating) (.left s)
  rwa [joined] at result

/-! ## Integers as literals -/

theorem exists_realOfValue_int (p : Precision) {i : Int} (small : i.natAbs < 2 ^ 64) :
    ∃ x, Scalar.realOfValue p (.int i) = .ok x := by
  obtain ⟨precise, ranged, reaches⟩ : 0 < p.reading.format.precision ∧
      p.reading.format.precision < p.reading.format.maxExponent ∧
      65 ≤ p.reading.format.maxExponent := by cases p <;> decide
  have finite := Binary.isFinite_ofInt precise ranged reaches small
  rw [Scalar.realOfValue]
  cases read : Binary.ofInt p.reading.format i with
  | finite s m e => exact ⟨_, rfl⟩
  | nan | infinite s =>
    rw [read] at finite
    cases finite

theorem exists_realScalar_int {a : NDArray} (floating : a.dtype.isInexact = true) {i : Int}
    (small : i.natAbs < 2 ^ 64) :
    ∃ r, Calculus.realScalar (Value.array a) (.int i) = .ok r ∧ r.IsArray a.dtype.realPart [] := by
  obtain ⟨d, data⟩ := a
  cases d with
  | real p | complex p =>
    obtain ⟨x, read⟩ := exists_realOfValue_int p small
    refine ⟨.scalar (.real p) x, ?_, isArray_scalar _ x⟩
    change (do return Value.scalar (.real p) (← Scalar.realOfValue p (.int i))) = _
    rw [read]
    rfl
  | _ => cases floating

variable {p : Precision} {i : Int}

theorem exists_adaptLiteral_int (p : Precision) (small : i.natAbs < 2 ^ 64) :
    ∃ x, adaptLiteral .int (.int i) (.real p) = .ok (.ofScalar (.real p) x) := by
  obtain ⟨x, read⟩ := exists_realOfValue_int p small
  refine ⟨x, ?_⟩
  change (do return NDArray.ofScalar (.real p) (← Scalar.realOfValue p (.int i))) = _
  rw [read]
  rfl

theorem IsArray.int_arithmetic (op : Scalar.Op) (small : i.natAbs < 2 ^ 64)
    (right : b.IsArray (.real p) []) :
    ∃ r, Value.arithmetic op (.int i) b = .ok r ∧ r.IsArray (.real p) [] := by
  obtain ⟨y, seen, dtype, shape⟩ := right.toOperand
  obtain ⟨x, adapted⟩ := exists_adaptLiteral_int p small
  have paired : operandPair (.int i) b = .ok (.ofScalar (.real p) x, y) := by
    rw [operandPair, seen]
    change (do return (← adaptLiteral .int (.int i) y.dtype, y)) = _
    rw [dtype, adapted]
    rfl
  have joined : (DType.real p).promote y.dtype = .real p := by
    rw [dtype]
    exact DType.promote_self rfl
  have result := exists_arithmetic op paired (isRepetition_eq_false rfl right.isSequence)
    (by rw [right.hasEntries]; rfl) rfl (by rw [dtype]; rfl)
    (by rw [NDArray.ofScalar, joined]; rfl) (by rw [shape]; exact .same [])
  rwa [NDArray.ofScalar, joined] at result

theorem IsArray.arithmetic_int (op : Scalar.Op) (left : a.IsArray (.real p) [])
    (small : i.natAbs < 2 ^ 64) :
    ∃ r, Value.arithmetic op a (.int i) = .ok r ∧ r.IsArray (.real p) [] := by
  obtain ⟨x, seen, dtype, shape⟩ := left.toOperand
  obtain ⟨y, adapted⟩ := exists_adaptLiteral_int p small
  have paired : operandPair a (.int i) = .ok (x, .ofScalar (.real p) y) := by
    rw [operandPair, seen]
    change (do return (x, ← adaptLiteral .int (.int i) x.dtype)) = _
    rw [dtype, adapted]
    rfl
  have joined : x.dtype.promote (.real p) = .real p := by
    rw [dtype]
    exact DType.promote_self rfl
  have result := exists_arithmetic op paired (isRepetition_eq_false left.isSequence rfl)
    (by rw [left.hasEntries]; rfl) (by rw [dtype]; rfl) rfl
    (by rw [NDArray.ofScalar, joined]; rfl) (by rw [shape]; exact .same [])
  rwa [NDArray.ofScalar, joined] at result

/-! ## Momentum -/

theorem IsArray.square (given : v.IsArray d s) (floating : d.isInexact = true) :
    ∃ r, Value.square v = .ok r ∧ r.IsArray d s := by
  obtain ⟨a, taken, rfl, rfl⟩ := given
  have joined := DType.promote_self floating
  obtain ⟨c, computed, dtype, shape⟩ := NDArray.exists_binary .mul floating floating
    (by rw [joined]; exact floating) (.same a.shape)
  have squared : a.square = .ok c := by
    unfold NDArray.square
    split
    case h_1 truth => rw [truth] at floating; cases floating
    case h_2 entries => rw [entries] at floating; cases floating
    case h_3 => exact computed
  rw [joined] at dtype
  refine ⟨ofResult c, ?_, ?_⟩
  · cases v with
    | scalar | array =>
      cases taken
      rw [Value.square, squared]
      rfl
    | _ => cases taken
  · rw [← dtype, ← shape]
    exact isArray_ofResult (dtype ▸ floating)

theorem toArray_scalar (p : Precision) (x : Scalar) :
    (Value.scalar (.real p) x).toArray none =
      .ok (.ofScalar (.real p) (x.cast (.real p))) := rfl

theorem IsArray.squareRoot (given : v.IsArray (.real p) []) :
    ∃ r, Value.squareRoot v = .ok r ∧ r.IsArray (.real p) [] := by
  obtain ⟨a, seen, dtype, shape⟩ : ∃ a, v.toArray none = .ok a ∧ a.dtype = .real p ∧
      a.shape = [] := by
    obtain ⟨a, taken, dtype, shape⟩ := given
    cases v with
    | scalar e x =>
      cases taken
      cases dtype
      exact ⟨_, toArray_scalar p x, rfl, rfl⟩
    | array =>
      cases taken
      exact ⟨_, rfl, dtype, shape⟩
    | _ => cases taken
  obtain ⟨_, data⟩ := a
  cases dtype
  let rooted : NDArray :=
    ⟨.real p, (data.map (Scalar.cast (.real p))).map (Scalar.sqrt (.real p))⟩
  have result : (ofResult rooted).IsArray (.real p) [] := shape ▸ isArray_ofResult rfl
  refine ⟨ofResult rooted, ?_, result⟩
  rw [Value.squareRoot, seen]
  rfl

/-- The momentum goes on without faults. -/
theorem IsArray.momentum (given : v.IsArray (.real p) []) :
    ∃ r, momentum v = .ok r ∧ r.IsArray (.real p) [] := by
  obtain ⟨squared, first, kind⟩ := given.square rfl
  obtain ⟨scaled, second, kind⟩ := kind.int_arithmetic (i := 4) .mul (by decide)
  obtain ⟨shifted, third, kind⟩ := kind.int_arithmetic (i := 1) .add (by decide)
  obtain ⟨root, fourth, kind⟩ := kind.squareRoot
  obtain ⟨total, fifth, kind⟩ := kind.int_arithmetic (i := 1) .add (by decide)
  obtain ⟨half, sixth, kind⟩ := kind.arithmetic_int (i := 2) .div (by decide)
  refine ⟨half, ?_, kind⟩
  change (do
    let root ← Value.squareRoot (← Value.arithmetic .add (.int 1)
      (← Value.arithmetic .mul (.int 4) (← Value.square v)))
    Value.arithmetic .div (← Value.arithmetic .add (.int 1) root) (.int 2)) = _
  simp only [first, second, third, fourth, fifth, sixth, bind, Except.bind]

/-! ## Stores -/

theorem kind_storeItems (a : NDArray) (items : Value) :
    (storeItems a items).1.dtype = a.dtype ∧ (storeItems a items).1.shape = a.shape := by
  unfold storeItems
  dsimp only
  split_ifs
  · exact ⟨rfl, rfl⟩
  · exact ⟨rfl, rfl⟩
  · split
    · exact ⟨rfl, rfl⟩
    · split
      · exact ⟨a.dtype_store _, a.shape_store _⟩
      · exact ⟨rfl, rfl⟩

/-- A store keeps the type and the shape of an array, whatever is stored into it. -/
theorem exists_store_array (a : NDArray) (source : Value) :
    ∃ b, (Calculus.store (Value.array a) source).1 = .array b ∧ b.dtype = a.dtype ∧
      b.shape = a.shape := by
  change ∃ b, (Value.store (.array a) source).1 = .array b ∧ _
  refine ⟨_, rfl, ?_⟩
  split
  case h_1 b => exact ⟨a.dtype_store b, a.shape_store b⟩
  case h_2 e x => exact ⟨a.dtype_store _, a.shape_store _⟩
  case h_3 => exact kind_storeItems a _
  case h_4 => exact kind_storeItems a _
  case h_5 =>
    split
    · exact ⟨a.dtype_store _, a.shape_store _⟩
    · exact ⟨rfl, rfl⟩

theorem IsArray.store {a : NDArray} (given : v.IsArray a.dtype a.shape)
    (floating : a.dtype.isInexact = true) :
    (Calculus.store (Value.array a) v).2 = .ok () := by
  obtain ⟨b, taken, dtype, shape⟩ := given
  cases v with
  | scalar | array =>
    cases taken
    exact NDArray.store_of_shape_eq (dtype ▸ floating) shape
  | _ => cases taken

end Value

end ProxGrad
