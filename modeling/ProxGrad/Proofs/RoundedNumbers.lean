import ProxGrad.Proofs.Floating
import ProxGrad.Proofs.RoundedMomentum

/-!
# Numbers of a real element type

The operations on values, where these are numbers with a real element type or small integers that
adapt to one, are those of the type's format. So the momentum of such a number is the rounded one.
-/

set_option autoImplicit false

namespace ProxGrad

theorem Precision.proper (p : Precision) : p.format.Proper := by
  cases p <;> exact ⟨by decide, by decide⟩

/-- All formats but half precision are wide. -/
theorem Precision.wide {p : Precision} (wider : p ≠ .half) : p.format.Wide := by
  cases p with
  | half => exact absurd rfl wider
  | _ => exact ⟨by decide, by decide⟩

/-! ## Results are numbers of the format -/

namespace Binary

variable {f : Format} (proper : f.Proper) (a b : Binary)

include proper

theorem convert_mul : (mul f a b).convert f = mul f a b := by
  have rounded {s : Bool} {m : ℕ} {e : ℤ} {inexact : Bool} :=
    @convert_round f s inexact m e proper.precise.le proper.ranged
  cases a <;> cases b <;> first | rfl | exact rounded | (rw [mul]; split_ifs <;> rfl)

theorem convert_add : (add f a b).convert f = add f a b := by
  have rounded {s : Bool} {m : ℕ} {e : ℤ} {inexact : Bool} :=
    @convert_round f s inexact m e proper.precise.le proper.ranged
  cases a <;> cases b <;>
    first | rfl | (simp only [add, align]; split_ifs <;> first | rfl | exact rounded)

theorem convert_div : (div f a b).convert f = div f a b := by
  have rounded {s : Bool} {m : ℕ} {e : ℤ} {inexact : Bool} :=
    @convert_round f s inexact m e proper.precise.le proper.ranged
  cases a <;> cases b <;>
    first | rfl | exact rounded | (rw [div]; split_ifs <;> first | rfl | exact rounded)

theorem convert_sqrt : (sqrt f a).convert f = sqrt f a := by
  have rounded {s : Bool} {m : ℕ} {e : ℤ} {inexact : Bool} :=
    @convert_round f s inexact m e proper.precise.le proper.ranged
  cases a with
  | finite s m e =>
    rw [sqrt]
    split_ifs
    · exact rounded
    · rfl
    · exact rounded
  | infinite s => cases s <;> rfl
  | nan => rfl

theorem convert_nextMomentum : (nextMomentum f a).convert f = nextMomentum f a :=
  convert_div proper _ _

end Binary

namespace Value

variable {p : Precision} {i : ℤ} {a b : Binary}

/-- A number with a real element type. -/
def number (p : Precision) (a : Binary) : Value :=
  .scalar (.real p) (.real a)

theorem binary_number (op : Scalar.Op) (a b : Binary) :
    (NDArray.binary op (.ofScalar (.real p) (.real a)) (.ofScalar (.real p) (.real b))).map
        ofResult =
      .ok (number p (Scalar.applyReal p.format op (a.convert p.format) (b.convert p.format))) := by
  cases p <;> cases op <;> rfl

theorem arithmetic_of_pair {v w : Value} {x y : NDArray} (op : Scalar.Op)
    (paired : operandPair v w = .ok (x, y)) (numeric : isRepetition v w = false)
    (entered : (v.hasEntries || w.hasEntries) = true) :
    arithmetic op v w = (NDArray.binary op x y).map ofResult := by
  simp only [arithmetic, numeric, entered, paired, Bool.and_false, Bool.false_eq_true, ↓reduceIte,
    bind, Except.bind, pure, Except.pure]
  cases NDArray.binary op x y <;> rfl

theorem arithmetic_numbers (op : Scalar.Op) (left : a.convert p.format = a)
    (right : b.convert p.format = b) :
    arithmetic op (number p a) (number p b) = .ok (number p (Scalar.applyReal p.format op a b)) := by
  rw [arithmetic_of_pair op rfl rfl rfl, binary_number, left, right]

/-- The integers of the recurrence are numbers of every format. -/
theorem realOfValue_small (p : Precision) (small : i = 1 ∨ i = 2 ∨ i = 4) :
    Scalar.realOfValue p (.int i) = .ok (.real (Binary.ofInt p.format i)) ∧
      (Binary.ofInt p.format i).convert p.format = Binary.ofInt p.format i := by
  rcases small with rfl | rfl | rfl <;> cases p <;> exact ⟨rfl, rfl⟩

theorem adaptLiteral_small (p : Precision) (small : i = 1 ∨ i = 2 ∨ i = 4) :
    adaptLiteral .int (.int i) (.real p) =
      .ok (.ofScalar (.real p) (.real (Binary.ofInt p.format i))) := by
  change (do return NDArray.ofScalar (.real p) (← Scalar.realOfValue p (.int i))) = _
  rw [(realOfValue_small p small).1]
  rfl

theorem arithmetic_int_number (op : Scalar.Op) (small : i = 1 ∨ i = 2 ∨ i = 4)
    (right : b.convert p.format = b) :
    arithmetic op (.int i) (number p b) =
      .ok (number p (Scalar.applyReal p.format op (Binary.ofInt p.format i) b)) := by
  have paired : operandPair (.int i) (number p b) =
      .ok (.ofScalar (.real p) (.real (Binary.ofInt p.format i)),
        .ofScalar (.real p) (.real b)) := by
    change (do return (← adaptLiteral .int (.int i) (.real p), _)) = _
    rw [adaptLiteral_small p small]
    rfl
  rw [arithmetic_of_pair op paired rfl rfl, binary_number, (realOfValue_small p small).2, right]

theorem arithmetic_number_int (op : Scalar.Op) (small : i = 1 ∨ i = 2 ∨ i = 4)
    (left : a.convert p.format = a) :
    arithmetic op (number p a) (.int i) =
      .ok (number p (Scalar.applyReal p.format op a (Binary.ofInt p.format i))) := by
  have paired : operandPair (number p a) (.int i) =
      .ok (.ofScalar (.real p) (.real a),
        .ofScalar (.real p) (.real (Binary.ofInt p.format i))) := by
    change (do return (_, ← adaptLiteral .int (.int i) (.real p))) = _
    rw [adaptLiteral_small p small]
    rfl
  rw [arithmetic_of_pair op paired rfl rfl, binary_number, (realOfValue_small p small).2, left]

theorem square_number (p : Precision) (a : Binary) :
    square (number p a) =
      .ok (number p (Binary.mul p.format (a.convert p.format) (a.convert p.format))) := by
  cases p <;> rfl

theorem squareRoot_number (p : Precision) (a : Binary) :
    squareRoot (number p a) =
      .ok (number p (Binary.sqrt p.format ((a.convert p.format).convert p.format))) := by
  cases p <;> rfl

/-- The momentum of a number is the rounded one. -/
theorem momentum_number (rounded : a.convert p.format = a) :
    momentum (number p a) = .ok (number p (Binary.nextMomentum p.format a)) := by
  have proper := p.proper
  let square := Binary.mul p.format a a
  let scaled := Binary.mul p.format (Binary.ofInt p.format 4) square
  let radicand := Binary.add p.format (Binary.ofInt p.format 1) scaled
  let root := Binary.sqrt p.format radicand
  let total := Binary.add p.format (Binary.ofInt p.format 1) root
  have first : Value.square (number p a) = .ok (number p square) := by
    rw [square_number, rounded]
  have second : arithmetic .mul (.int 4) (number p square) = .ok (number p scaled) :=
    arithmetic_int_number .mul (.inr (.inr rfl)) (Binary.convert_mul proper _ _)
  have third : arithmetic .add (.int 1) (number p scaled) = .ok (number p radicand) :=
    arithmetic_int_number .add (.inl rfl) (Binary.convert_mul proper _ _)
  have fourth : squareRoot (number p radicand) = .ok (number p root) := by
    rw [squareRoot_number, Binary.convert_add proper, Binary.convert_add proper]
  have fifth : arithmetic .add (.int 1) (number p root) = .ok (number p total) :=
    arithmetic_int_number .add (.inl rfl) (Binary.convert_sqrt proper _)
  have sixth : arithmetic .div (number p total) (.int 2) =
      .ok (number p (Binary.nextMomentum p.format a)) :=
    arithmetic_number_int .div (.inr (.inl rfl)) (Binary.convert_add proper _ _)
  change (do
    let root ← Value.squareRoot (← arithmetic .add (.int 1)
      (← arithmetic .mul (.int 4) (← Value.square (number p a))))
    arithmetic .div (← arithmetic .add (.int 1) root) (.int 2)) = _
  simp only [first, second, third, fourth, fifth, sixth, bind, Except.bind]

end Value

end ProxGrad
