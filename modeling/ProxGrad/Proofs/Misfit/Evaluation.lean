import ProxGrad.Proofs.Conversion
import ProxGrad.Proofs.Lasting
import ProxGrad.Terms.LeastSquares

/-!
# Evaluations of rounded least-squares terms

With an operator whose products of vectors are vectors, data of as many entries as the operator has
rows, and a shape for its columns, the evaluations at points of that shape fail only where the
products do. Those with a matrix of numbers never do.
-/

set_option autoImplicit false

namespace ProxGrad

theorem Outcome.exists_fault {α : Type} {fails : Fault → Prop} {r : Except Fault α}
    (outcome : Outcome fails (fun _ => False) r) : ∃ fault, r = .error fault := by
  cases r with
  | ok x => exact outcome.elim
  | error fault => exact ⟨fault, rfl⟩

/-! ## Vectors -/

/-- A vector with so many floating entries. -/
def Value.IsVector (n : ℕ) (v : Value) : Prop :=
  ∃ a, v = .array a ∧ a.dtype.isInexact = true ∧ a.shape = [n]

theorem Value.IsArray.isVector {v : Value} {d : DType} {n : ℕ} (given : v.IsArray d [n])
    (floating : d.isInexact = true) : v.IsVector n := by
  obtain ⟨a, taken, rfl, shape⟩ := given
  cases v with
  | array b =>
    cases taken
    exact ⟨a, rfl, floating, shape⟩
  | scalar e x =>
    cases taken
    cases shape
  | _ => cases taken

theorem Value.toArray_array (a : NDArray) : (Value.array a).toArray none = .ok a := rfl

theorem NDArray.isVector_flatten {a : NDArray} (floating : a.dtype.isInexact = true) :
    (Value.array a.flatten).IsVector a.size :=
  ⟨a.flatten, rfl, floating, rfl⟩

theorem DType.isInexact_promote {d e : DType} (first : d.isInexact = true)
    (second : e.isInexact = true) : (d.promote e).isInexact = true := by
  cases d with
  | real | complex =>
    cases e with
    | real | complex => rfl
    | _ => cases second
  | _ => cases first

/-! ## Actions that find something -/

namespace Action

variable {α β : Type} {m : Memory Value} {fails : Fault → Prop} {gives : α → Prop}
  {after : β → Prop}

/-- An action that leaves a memory as it is, and gives something with a property or fails in certain
ways. -/
structure Finds (m : Memory Value) (fails : Fault → Prop) (gives : α → Prop)
    (a : Action Value α) : Prop where
  still : (a.outcome m).2 = m
  outcome : Outcome fails gives (a.outcome m).1

theorem finds_lift {r : Except Fault α} (outcome : Outcome fails gives r) :
    Finds m fails gives (lift r) :=
  ⟨rfl, outcome⟩

theorem finds_of_outcome {a : Action Value α} {x : α} (ran : a.outcome m = (.ok x, m))
    (given : gives x) : Finds m fails gives a := by
  constructor <;> rw [ran]
  exact given

/-- What follows an action that leaves the memory as it is has that memory as well. -/
theorem Finds.outcome_bind {a : Action Value α} {next : α → Action Value β}
    (first : Finds m fails gives a)
    (rest : ∀ x, gives x → Outcome fails after ((next x).outcome m).1) :
    Outcome fails after ((a >>= next).outcome m).1 := by
  obtain ⟨still, outcome⟩ := first
  rw [Action.outcome_bind]
  cases ran : a.outcome m with
  | mk result m' =>
    rw [ran] at still outcome
    cases still
    cases result with
    | ok x => exact rest x outcome
    | error fault => exact outcome

theorem Finds.bind {a : Action Value α} {next : α → Action Value β} (first : Finds m fails gives a)
    (rest : ∀ x, gives x → Finds m fails after (next x)) : Finds m fails after (a >>= next) := by
  refine ⟨?_, first.outcome_bind fun x given => (rest x given).outcome⟩
  obtain ⟨still, outcome⟩ := first
  rw [Action.outcome_bind]
  cases ran : a.outcome m with
  | mk result m' =>
    rw [ran] at still outcome
    cases still
    cases result with
    | ok x => exact (rest x outcome).still
    | error fault => rfl

theorem Finds.mono {fails' : Fault → Prop} {a : Action Value α} (finds : Finds m fails gives a)
    (faults : ∀ fault, fails fault → fails' fault) : Finds m fails' gives a :=
  ⟨finds.still, finds.outcome.mono faults fun _ => id⟩

/-- What follows an action has a memory that may be another one. -/
theorem outcome_bind_of_outcome {a : Action Value α} {next : α → Action Value β}
    (first : Outcome fails gives (a.outcome m).1)
    (rest : ∀ x m', gives x → Outcome fails after ((next x).outcome m').1) :
    Outcome fails after ((a >>= next).outcome m).1 := by
  rw [Action.outcome_bind]
  cases ran : a.outcome m with
  | mk result m' =>
    rw [ran] at first
    cases result with
    | ok x => exact rest x m' first
    | error fault => exact first

end Action

open ProxGrad.Action

/-! ## Operators -/

/-- An operator that has its products of vectors in a memory, but for certain faults. -/
structure LinearOperator.Maps (A : LinearOperator Value) (fails : Fault → Prop)
    (m : Memory Value) : Prop where
  apply : ∀ v, v.IsVector A.columns → Finds m fails (Value.IsVector A.rows) (A.apply v)
  adjoint : ∀ v, v.IsVector A.rows → Finds m fails (Value.IsVector A.columns) (A.adjoint v)

/-- A type of numbers: neither text nor values of their own. -/
def DType.IsNumeric (d : DType) : Prop :=
  d ≠ .object ∧ ∀ n, d ≠ .text n

namespace NDArray

variable {a v : NDArray} {rows columns : ℕ}

theorem convertTo_of_isNumeric (numeric : a.dtype.IsNumeric) (d : DType) :
    a.convertTo d = .ok ⟨d, a.data.map (Scalar.cast d)⟩ := by
  obtain ⟨e, data⟩ := a
  cases e with
  | object => exact absurd rfl numeric.1
  | text n => exact absurd rfl (numeric.2 n)
  | _ => rfl

theorem conj_of_isNumeric (numeric : a.dtype.IsNumeric) :
    a.conj = .ok ⟨a.dtype, a.data.map Scalar.conj⟩ := by
  obtain ⟨e, data⟩ := a
  cases e with
  | object => exact absurd rfl numeric.1
  | _ => rfl

theorem isInexact_promote_numeric {d e : DType} (numeric : d.IsNumeric)
    (floating : e.isInexact = true) : (d.promote e).isInexact = true := by
  cases e with
  | real | complex =>
    cases d with
    | object => exact absurd rfl numeric.1
    | text n => exact absurd rfl (numeric.2 n)
    | int s => cases s <;> rfl
    | _ => rfl
  | _ => cases floating

theorem isNumeric_of_isInexact {d : DType} (floating : d.isInexact = true) : d.IsNumeric := by
  cases d with
  | real | complex => exact ⟨nofun, nofun⟩
  | _ => cases floating

theorem exists_storedType {d e : DType} (numeric : d.IsNumeric) (floating : e.isInexact = true) :
    ∃ c, storedType d e = .ok c ∧ c.isInexact = true := by
  have common := isInexact_promote_numeric numeric floating
  unfold storedType
  generalize d.promote e = c at common
  cases c with
  | real p => cases p <;> exact ⟨_, rfl, rfl⟩
  | complex p => exact ⟨_, rfl, rfl⟩
  | _ => cases common

/-- The products of so many rows are a vector. -/
theorem exists_rowProducts {d : DType} (floating : d.isInexact = true) (rows : List (List Scalar))
    (xs : List Scalar) :
    ∃ b, rowProducts d rows xs = .ok b ∧ (Value.array b).IsVector rows.length := by
  have shape (f : List Scalar → Scalar) :
      [(rows.map f).length] = [rows.length] := congrArg (fun n => [n]) (List.length_map f)
  cases d with
  | real | complex => exact ⟨_, rfl, _, rfl, rfl, shape _⟩
  | _ => cases floating

theorem isVector_storedProducts {d : DType} (floating : d.isInexact = true)
    (rows : List (List Scalar)) (xs : List Scalar) :
    (Value.array (storedProducts d rows xs)).IsVector rows.length :=
  ⟨_, rfl, floating, congrArg (fun n => [n]) (List.length_map _)⟩

theorem length_transposed (d : DType) (columns : ℕ) (rows : List (List Scalar)) :
    (transposed d columns rows).length = columns := by
  rw [transposed, List.length_map, List.length_range]

section

variable (numeric : a.dtype.IsNumeric) (floating : v.dtype.isInexact = true)

include numeric floating

theorem exists_matVec (side : v.shape = [columns]) (rows : ℕ) :
    ∃ b, matVec rows columns a v = .ok b ∧ (Value.array b).IsVector rows := by
  have other := isNumeric_of_isInexact floating
  obtain ⟨b, found, vector⟩ := exists_rowProducts (isInexact_promote_numeric numeric floating)
    (NDArray.rows rows columns ⟨_, a.data.map (Scalar.cast (a.dtype.promote v.dtype))⟩)
    (v.data.map (Scalar.cast (a.dtype.promote v.dtype))).entries
  rw [NDArray.rows, length_pieces] at vector
  refine ⟨b, ?_, vector⟩
  simp only [matVec, convertTo_of_isNumeric numeric, convertTo_of_isNumeric other,
    size_eq_of_shape side, ne_eq, not_true_eq_false, if_false, bind, Except.bind]
  exact found

theorem exists_adjointVec (side : v.shape = [rows]) (columns : ℕ) :
    ∃ b, adjointVec rows columns a v = .ok b ∧ (Value.array b).IsVector columns := by
  have other := isNumeric_of_isInexact floating
  have conjugated : (⟨a.dtype, a.data.map Scalar.conj⟩ : NDArray).dtype.IsNumeric := numeric
  obtain ⟨b, found, vector⟩ := exists_rowProducts (isInexact_promote_numeric numeric floating)
    (transposed (a.dtype.promote v.dtype) columns (NDArray.rows rows columns
      ⟨_, (a.data.map Scalar.conj).map (Scalar.cast (a.dtype.promote v.dtype))⟩))
    (v.data.map (Scalar.cast (a.dtype.promote v.dtype))).entries
  rw [length_transposed] at vector
  refine ⟨b, ?_, vector⟩
  simp only [adjointVec, conj_of_isNumeric numeric, convertTo_of_isNumeric conjugated,
    convertTo_of_isNumeric other, size_eq_of_shape side, ne_eq, not_true_eq_false, if_false, bind,
    Except.bind]
  exact found

theorem exists_storedVec (side : v.shape = [columns]) (rows : ℕ) :
    ∃ b, storedVec rows columns a v = .ok b ∧ (Value.array b).IsVector rows := by
  have other := isNumeric_of_isInexact floating
  obtain ⟨d, type, common⟩ := exists_storedType numeric floating
  have vector := isVector_storedProducts common
    (NDArray.rows rows columns ⟨d, a.data.map (Scalar.cast d)⟩)
    (v.data.map (Scalar.cast d)).entries
  rw [NDArray.rows, length_pieces] at vector
  refine ⟨_, ?_, vector⟩
  simp only [storedVec, type, convertTo_of_isNumeric numeric, convertTo_of_isNumeric other,
    size_eq_of_shape side, ne_eq, not_true_eq_false, if_false, bind, Except.bind, pure, Except.pure]
  rfl

theorem exists_storedAdjointVec (side : v.shape = [rows]) (columns : ℕ) :
    ∃ b, storedAdjointVec rows columns a v = .ok b ∧ (Value.array b).IsVector columns := by
  have other := isNumeric_of_isInexact floating
  have conjugated : (⟨a.dtype, a.data.map Scalar.conj⟩ : NDArray).dtype.IsNumeric := numeric
  obtain ⟨d, type, common⟩ := exists_storedType numeric floating
  have vector := isVector_storedProducts common
    (transposed d columns (NDArray.rows rows columns
      ⟨d, (a.data.map Scalar.conj).map (Scalar.cast d)⟩))
    (v.data.map (Scalar.cast d)).entries
  rw [length_transposed] at vector
  refine ⟨_, ?_, vector⟩
  simp only [storedAdjointVec, type, conj_of_isNumeric numeric, convertTo_of_isNumeric conjugated,
    convertTo_of_isNumeric other, size_eq_of_shape side, ne_eq, not_true_eq_false, if_false, bind,
    Except.bind, pure, Except.pure]

end

end NDArray

namespace LinearOperator

variable {m : Memory Value} {fails : Fault → Prop} {a : NDArray} {matrix : Ref Value}
  {rows columns : ℕ}

theorem outcome_product {f : NDArray → NDArray → Except Fault NDArray} {side n : ℕ} {v : Value}
    (found : ∀ x : NDArray, x.dtype.isInexact = true → x.shape = [side] →
      ∃ b, f a x = .ok b ∧ (Value.array b).IsVector n) (vector : v.IsVector side) :
    Outcome fails (Value.IsVector n) (Value.product f side (.array a) v) := by
  obtain ⟨x, rfl, floating, shape⟩ := vector
  obtain ⟨b, computed, result⟩ := found x floating shape
  have product : Value.product f side (.array a) (.array x) = .ok (.array b) := by
    change (do
      if x.shape ≠ [side] then throw Fault.shapes
      return Value.array (← f a x) : Except Fault Value) = _
    rw [if_neg (not_not_intro shape), computed]
    rfl
  rw [product]
  exact result

/-- A matrix of numbers has all its products. -/
theorem maps_ofMatrix (storage : Storage)
    (seen : (readRef matrix).outcome m = (.ok (.array a), m)) (numeric : a.dtype.IsNumeric) :
    (ofMatrix storage rows columns matrix).Maps fails m where
  apply v vector := by
    refine (finds_of_outcome seen rfl : Finds m fails (· = Value.array a) _).bind ?_
    rintro _ rfl
    refine finds_lift ?_
    cases storage with
    | dense => exact outcome_product (fun _ floating shape =>
        NDArray.exists_matVec numeric floating shape rows) vector
    | sparse => exact outcome_product (fun _ floating shape =>
        NDArray.exists_storedVec numeric floating shape rows) vector
  adjoint v vector := by
    refine (finds_of_outcome seen rfl : Finds m fails (· = Value.array a) _).bind ?_
    rintro _ rfl
    refine finds_lift ?_
    cases storage with
    | dense => exact outcome_product (fun _ floating shape =>
        NDArray.exists_adjointVec numeric floating shape columns) vector
    | sparse => exact outcome_product (fun _ floating shape =>
        NDArray.exists_storedAdjointVec numeric floating shape columns) vector

/-- One that is known in one direction only lacks the others. -/
theorem maps_withoutAdjoint (seen : (readRef matrix).outcome m = (.ok (.array a), m))
    (numeric : a.dtype.IsNumeric) :
    (withoutAdjoint rows columns matrix).Maps (· = .noAdjoint) m where
  apply := (maps_ofMatrix .dense seen numeric).apply
  adjoint _ _ := ⟨rfl, rfl⟩

theorem length_foldl_set (pairs : List (ℕ × Scalar)) (zeros : List Scalar) :
    (pairs.foldl (fun xs (i, x) => xs.set i x) zeros).length = zeros.length := by
  induction pairs generalizing zeros with
  | nil => rfl
  | cons pair pairs ih => rw [List.foldl_cons, ih, List.length_set]

theorem maps_subsample (height width : ℕ) :
    (subsample height width : LinearOperator Value).Maps fails m where
  apply v vector := by
    obtain ⟨x, rfl, floating, shape⟩ := vector
    have picked : Value.pick (height * width) (everyOther height width) (.array x) =
        .ok (.array ⟨x.dtype, .ofList ((everyOther height width).map fun i =>
          x.data.entries.getD i (.zero x.dtype))⟩) := by
      change (do
        if x.shape ≠ [height * width] then throw Fault.shapes
        return Value.array _ : Except Fault Value) = _
      exact if_neg (not_not_intro shape)
    refine finds_of_outcome (congrArg (fun r => (r, m)) picked) ?_
    exact ⟨_, rfl, floating, congrArg (fun n => [n]) (List.length_map _)⟩
  adjoint v vector := by
    obtain ⟨x, rfl, floating, shape⟩ := vector
    have side : x.shape = [(everyOther height width).length] := shape
    have converted := NDArray.convertTo_of_isInexact .float64 floating
    let entries := ((everyOther height width).zip (x.data.map (Scalar.cast .float64)).entries).foldl
      (fun xs (i, x) => xs.set i x) (List.replicate (height * width) (.zero .float64))
    have placed : Value.place (height * width) (everyOther height width) (.array x) =
        .ok (.array ⟨.float64, .ofList entries⟩) := by
      simp only [Value.place, Value.toArray_array, side, converted, ne_eq, not_true_eq_false,
        if_false, bind, Except.bind, pure, Except.pure, entries]
    refine finds_of_outcome (congrArg (fun r => (r, m)) placed) ?_
    exact ⟨_, rfl, rfl, congrArg (fun n => [n])
      ((length_foldl_set _ _).trans List.length_replicate)⟩

end LinearOperator

/-! ## Misfits -/

namespace NDArray

variable {a : NDArray}

/-- The inner product of an array with itself, rounded to its type. -/
theorem inner_self (floating : a.dtype.isInexact = true) :
    a.inner a = .ok (ofScalar a.dtype (sumProducts a.dtype
      (a.data.entries.map fun x => (x.cast a.dtype).conj)
      (a.data.entries.map (Scalar.cast a.dtype)))) := by
  obtain ⟨d, data⟩ := a
  cases d with
  | real p | complex p => cases p <;> exact if_neg (not_not_intro rfl)
  | _ => cases floating

theorem exists_inner_self (floating : a.dtype.isInexact = true) :
    ∃ x, Calculus.inner (Value.array a) (.array a) = .ok (.real x) := by
  change ∃ x, (do
    let product := Value.ofResult (← a.inner a)
    return Value.real (← (← product.realPart).toLiteral)) = _
  rw [inner_self floating]
  obtain ⟨d, data⟩ := a
  cases d with
  | real p | complex p => exact ⟨_, rfl⟩
  | _ => cases floating

end NDArray

namespace LeastSquares

variable {m : Memory Value} {fails : Fault → Prop} {f : LeastSquares Value} {x : Ref Value}
  {out : Cell} {a : NDArray} {v : Value}

theorem exists_misfit {n : ℕ} (vector : v.IsVector n) : ∃ x, misfit v = .ok (.real x) := by
  obtain ⟨a, rfl, floating, -⟩ := vector
  obtain ⟨x, inner⟩ := NDArray.exists_inner_self floating
  rw [misfit, inner]
  exact ⟨_, rfl⟩

theorem exists_sub {w : Value} {n : ℕ} (left : v.IsVector n) (right : w.IsVector n) :
    ∃ r, Calculus.sub v w = .ok r ∧ r.IsVector n := by
  obtain ⟨a, rfl, first, shape⟩ := left
  obtain ⟨b, rfl, second, shape'⟩ := right
  have common := DType.isInexact_promote first second
  obtain ⟨r, computed, kind⟩ := (Value.isArray_array a).arithmetic .sub (Value.isArray_array b)
    first second common (by rw [shape, shape']; exact .same [n])
  exact ⟨r, computed, kind.isVector common⟩

/-- A term whose operator has its products in a memory, with data there for its rows. -/
structure Fits (f : LeastSquares Value) (fails : Fault → Prop) (m : Memory Value) : Prop where
  maps : f.operator.Maps fails m
  observed : ∃ y, (readRef f.observed).outcome m = (.ok (.array y), m) ∧
    y.dtype.isInexact = true ∧ y.size = f.operator.rows

/-- A point with an entry for each column. -/
structure Takes (f : LeastSquares Value) (x : Ref Value) (m : Memory Value) (a : NDArray) :
    Prop where
  seen : (readRef x).outcome m = (.ok (.array a), m)
  floating : a.dtype.isInexact = true
  size : a.size = f.operator.columns

/-- A term that brings the vectors of its operator to a shape. -/
def Shapes (f : LeastSquares Value) (s : List ℕ) : Prop :=
  ∀ g, g.IsVector f.operator.columns →
    ∃ b, f.shaped g = .ok (.array b) ∧ b.dtype.isInexact = true ∧ b.shape = s

/-- A term that brings no vector of its operator to any shape. -/
def Misshapes (f : LeastSquares Value) : Prop :=
  ∀ g, g.IsVector f.operator.columns → ∃ fault, f.shaped g = .error fault

/-- The evaluations of a term at a point, with a destination for gradients, have what they are to
give or certain faults. -/
structure Evaluates (f : LeastSquares Value) (fails : Fault → Prop) (m : Memory Value)
    (x : Ref Value) (out : Cell) : Prop where
  residual : Finds m fails (Value.IsVector f.operator.rows) (f.residual x)
  value : Finds m fails (fun _ => True) (f.term.value x)
  gradient : Outcome fails (fun _ => True) ((f.term.gradient x out).outcome m).1
  valueAndGradient : Outcome fails (fun _ => True) ((f.term.valueAndGradient x out).outcome m).1

/-- A term whose gradient at a point is stored nowhere. -/
def HasNoGradient (f : LeastSquares Value) (m : Memory Value) (x : Ref Value) : Prop :=
  ∀ out, (∃ fault, ((f.term.gradient x out).outcome m).1 = .error fault) ∧
    ∃ fault, ((f.term.valueAndGradient x out).outcome m).1 = .error fault

/-- A residual is a vector with an entry for each row. -/
theorem finds_residual (fits : f.Fits fails m) (takes : f.Takes x m a) :
    Finds m fails (Value.IsVector f.operator.rows) (f.residual x) := by
  obtain ⟨maps, y, observed, floating, rows⟩ := fits
  have flat := takes.size ▸ NDArray.isVector_flatten takes.floating
  refine (finds_of_outcome takes.seen rfl : Finds m fails (· = Value.array a) _).bind ?_
  rintro _ rfl
  refine (finds_of_outcome rfl flat : Finds m fails (Value.IsVector f.operator.columns) _).bind ?_
  intro flat vector
  refine (maps.apply flat vector).bind fun image left => ?_
  refine (finds_of_outcome observed rfl : Finds m fails (· = Value.array y) _).bind ?_
  rintro _ rfl
  have right := rows ▸ NDArray.isVector_flatten floating
  refine (finds_of_outcome rfl right : Finds m fails (Value.IsVector f.operator.rows) _).bind ?_
  intro data right
  obtain ⟨r, computed, vector⟩ := exists_sub left right
  refine finds_lift ?_
  rw [computed]
  exact vector

theorem finds_value (fits : f.Fits fails m) (takes : f.Takes x m a) :
    Finds m fails (fun _ => True) (f.term.value x) := by
  refine (finds_residual fits takes).bind fun r vector => ?_
  obtain ⟨value, computed⟩ := exists_misfit vector
  refine finds_lift ?_
  rw [computed]
  trivial

/-! Gradients are stored where they can be brought to the shape of the destination, and are not
where they cannot be brought to any. -/

section

variable {d : DType} {s : List ℕ}

theorem outcome_storeGradient (fits : f.Fits fails m) (vector : v.IsVector f.operator.rows)
    (shapes : f.Shapes s) (destination : m.Holds out d s) :
    Outcome fails (fun _ => True) ((f.storeGradient v out).outcome m).1 := by
  refine (fits.maps.adjoint v vector).outcome_bind fun g gradient => ?_
  obtain ⟨b, brought, floating, shape⟩ := shapes g gradient
  obtain ⟨old, held, -, rfl⟩ := destination
  have stored := NDArray.store_of_shape_eq floating shape
  rw [brought, outcome_bind_of_ok (outcome_lift _ m), outcome_store held]
  change Outcome _ _ (old.store b).2
  rw [stored]
  trivial

/-- The evaluations of a term fail only as the products do. -/
theorem evaluates_of_shapes (fits : f.Fits fails m) (takes : f.Takes x m a) (shapes : f.Shapes s)
    (destination : m.Holds out d s) : f.Evaluates fails m x out where
  residual := finds_residual fits takes
  value := finds_value fits takes
  gradient := (finds_residual fits takes).outcome_bind fun _ vector =>
    outcome_storeGradient fits vector shapes destination
  valueAndGradient := by
    refine (finds_residual fits takes).outcome_bind fun r vector => ?_
    refine outcome_bind_of_outcome (outcome_storeGradient fits vector shapes destination)
      fun _ m' _ => ?_
    obtain ⟨value, computed⟩ := exists_misfit vector
    change Outcome _ _ (misfit r)
    rw [computed]
    trivial

end

theorem outcome_storeGradient_of_misshapes (fits : f.Fits fails m)
    (vector : v.IsVector f.operator.rows) (misshapes : f.Misshapes) :
    Outcome (fun _ => True) (fun _ => False) ((f.storeGradient v out).outcome m).1 := by
  refine ((fits.maps.adjoint v vector).mono fun _ _ => trivial).outcome_bind fun g gradient => ?_
  obtain ⟨fault, failed⟩ := misshapes g gradient
  rw [failed]
  trivial

theorem hasNoGradient_of_misshapes (fits : f.Fits fails m) (takes : f.Takes x m a)
    (misshapes : f.Misshapes) : f.HasNoGradient m x := by
  intro out
  have residual := (finds_residual fits takes).mono fun _ _ => (trivial : True)
  constructor
  · exact (residual.outcome_bind fun r vector =>
      outcome_storeGradient_of_misshapes fits vector misshapes).exists_fault
  · have refused : Outcome (fun _ => True) (fun _ => False)
        ((f.term.valueAndGradient x out).outcome m).1 :=
      residual.outcome_bind fun r vector =>
        outcome_bind_of_outcome (outcome_storeGradient_of_misshapes fits vector misshapes)
          fun _ _ => False.elim
    exact refused.exists_fault

end LeastSquares

end ProxGrad
