import Mathlib.Analysis.RCLike.Basic
import ProxGrad.Calculus
import ProxGrad.Numeric.NDArray
import ProxGrad.Proofs.Broadcast
import ProxGrad.Proofs.PowersOfTwo

/-!
# Exact arithmetic

The calculus on tensors of real or complex numbers without rounding. A number is a tensor without
sides. Operations broadcast as those on arrays of rounded entries do, and fail where exact
arithmetic has no value: there is no quotient by zero and no root of a number that is not a
non-negative real.
-/

set_option autoImplicit false

namespace ProxGrad

namespace Exact

open RCLike

def entrywise {α : Type} (f : α → α → α) (a b : Tensor α) : Except Fault (Tensor α) :=
  match a.zipWith? f b with
  | some t => .ok t
  | none => .error .shapes

theorem entrywise_scalar {α : Type} (f : α → α → α) (x y : α) :
    entrywise f (.scalar x) (.scalar y) = .ok (.scalar (f x y)) := by
  rw [entrywise, Tensor.scalar_zipWith?]
  rfl

variable {𝕜 : Type} [RCLike 𝕜]

def number (a : Tensor 𝕜) : Except Fault 𝕜 :=
  match a.shape, a.entries with
  | [], [z] => .ok z
  | _, _ => .error .operandTypes

def real (r : ℝ) : Tensor 𝕜 :=
  .scalar (r : 𝕜)

/-- The order of entries: by real parts, then by imaginary parts. -/
def Precedes (z w : 𝕜) : Prop :=
  re z < re w ∨ re z = re w ∧ im z < im w

def dot (xs ys : List 𝕜) : 𝕜 :=
  (xs.zipWith (· * ·) ys).sum

/-- The destination after a store, the source repeated to its shape. -/
def store (destination source : Tensor 𝕜) : Tensor 𝕜 × Except Fault Unit :=
  let shape := NDArray.dropOnes destination.shape.length source.shape
  match (Tensor.ofShape? shape source.entries).bind fun t =>
      t.broadcastTo? destination.shape with
  | none => (destination, .error .shapes)
  | some ⟨xs, total⟩ => (⟨destination.shape, xs, total⟩, .ok ())

def setEntry (destination : Tensor 𝕜) (i : Nat) (source : Tensor 𝕜) :
    Except Fault (Tensor 𝕜) := do
  if destination.size ≤ i then throw .index
  return destination.set i (← number source)

def rows (count columns : Nat) (a : Tensor 𝕜) : List (List 𝕜) :=
  pieces columns count a.entries

def matVec (count columns : Nat) (a v : Tensor 𝕜) : Except Fault (Tensor 𝕜) :=
  if a.shape = [count, columns] ∧ v.shape = [columns] then
    .ok (.ofList ((rows count columns a).map fun row => dot row v.entries))
  else .error .shapes

def adjointVec (count columns : Nat) (a v : Tensor 𝕜) : Except Fault (Tensor 𝕜) :=
  if a.shape = [count, columns] ∧ v.shape = [count] then
    .ok (.ofList ((List.range columns).map fun j =>
      dot ((rows count columns a).map fun row => star (row.getD j 0)) v.entries))
  else .error .shapes

def pick (length : Nat) (indices : List Nat) (v : Tensor 𝕜) : Except Fault (Tensor 𝕜) :=
  if v.shape = [length] then .ok (.ofList (indices.map fun i => v.entries.getD i 0))
  else .error .shapes

/-- The real vector with the real parts of a vector's entries at some indices, zeros elsewhere. -/
def place (length : Nat) (indices : List Nat) (v : Tensor 𝕜) : Except Fault (Tensor 𝕜) :=
  if v.shape = [indices.length] then
    .ok (.ofList ((indices.zip v.entries).foldl (fun xs (i, z) => xs.set i ((re z : ℝ) : 𝕜))
      (List.replicate length 0)))
  else .error .shapes

open scoped Classical in
/-- The exact instance. -/
noncomputable instance : Calculus (Tensor 𝕜) where
  ofNat n := .scalar n
  ofDecimal digits exponent := .scalar (digits * 10 ^ exponent)
  leastNormal := .scalar (2 ^ (-1022 : ℤ))
  add := entrywise (· + ·)
  sub := entrywise (· - ·)
  mul := entrywise (· * ·)
  div a b := if 0 ∈ b.entries then .error .divisionByZero else entrywise (· / ·) a b
  maximum := entrywise fun z w => if Precedes z w then w else z
  minimum := entrywise fun z w => if Precedes w z then w else z
  square a := .ok (a.map (· ^ 2))
  sqrt a :=
    if ∀ z ∈ a.entries, 0 ≤ re z ∧ im z = 0 then .ok (a.map fun z => (√(re z) : ℝ))
    else .error .entryTypes
  abs a := .ok (a.map fun z => (‖z‖ : ℝ))
  sign a := .ok (a.map fun z => z / (‖z‖ : ℝ))
  less a b := do return decide (re (← number a) < re (← number b))
  atMost := entrywise fun z w => if re z ≤ re w then 1 else 0
  entries a := .ok a
  sum a := .ok (.scalar a.entries.sum)
  literal a := do return real (re (← number a))
  inner a b :=
    if a.size = b.size then .ok (real (re (dot (a.entries.map star) b.entries)))
    else .error .shapes
  norm a := .ok (real √(a.entries.map fun z => ‖z‖ ^ 2).sum)
  isComplex _ := decide ((I : 𝕜) ≠ 0)
  rotate a := .ok (a.map (I * ·))
  requireFloating _ _ := .ok ()
  finite? _ _ := .ok none
  fresh a := .ok (.fill a.shape 0)
  store := store
  setEntry := setEntry
  realScalar _ a := .ok a
  flatten a := .ok a.flatten
  matVec _ := matVec
  adjointVec _ := adjointVec
  pick := pick
  place := place

/-! ## Real numbers -/

@[simp] theorem ofNat_eq_real (n : Nat) : (Calculus.ofNat n : Tensor 𝕜) = real n := by
  rw [real, ofReal_natCast]
  rfl

theorem ofDecimal_eq_real (digits exponent : ℤ) :
    (Calculus.ofDecimal digits exponent : Tensor 𝕜) = real (digits * 10 ^ exponent) := by
  refine congrArg Tensor.scalar (?_ : (digits : 𝕜) * 10 ^ exponent = ((_ : ℝ) : 𝕜))
  push_cast
  rfl

theorem ofDecimal_zero (exponent : ℤ) :
    (Calculus.ofDecimal 0 exponent : Tensor 𝕜) = real 0 := by
  rw [ofDecimal_eq_real, Int.cast_zero, zero_mul]

theorem add_real (a b : ℝ) : Calculus.add (real a) (real b : Tensor 𝕜) = .ok (real (a + b)) := by
  rw [real, real, real, ofReal_add]
  exact entrywise_scalar (· + ·) _ _

theorem sub_real (a b : ℝ) : Calculus.sub (real a) (real b : Tensor 𝕜) = .ok (real (a - b)) := by
  rw [real, real, real, ofReal_sub]
  exact entrywise_scalar (· - ·) _ _

theorem mul_real (a b : ℝ) : Calculus.mul (real a) (real b : Tensor 𝕜) = .ok (real (a * b)) := by
  rw [real, real, real, ofReal_mul]
  exact entrywise_scalar (· * ·) _ _

theorem div_of_ne_zero {a b : Tensor 𝕜} (nonzero : 0 ∉ b.entries) :
    Calculus.div a b = entrywise (· / ·) a b :=
  if_neg nonzero

theorem zero_notMem_real {r : ℝ} (nonzero : r ≠ 0) : 0 ∉ (real r : Tensor 𝕜).entries := by
  intro member
  have zero : (0 : 𝕜) = (r : 𝕜) := List.mem_singleton.mp member
  exact nonzero (ofReal_eq_zero.mp zero.symm)

theorem div_real (a : ℝ) {b : ℝ} (nonzero : b ≠ 0) :
    Calculus.div (real a) (real b : Tensor 𝕜) = .ok (real (a / b)) := by
  rw [div_of_ne_zero (zero_notMem_real nonzero), real, real, real, ofReal_div]
  exact entrywise_scalar (· / ·) _ _

theorem square_real (a : ℝ) : Calculus.square (real a : Tensor 𝕜) = .ok (real (a ^ 2)) := by
  rw [real, real, ofReal_pow]
  rfl

theorem sqrt_real {a : ℝ} (nonneg : 0 ≤ a) :
    Calculus.sqrt (real a : Tensor 𝕜) = .ok (real √a) := by
  have defined : ∀ z ∈ (real a : Tensor 𝕜).entries, 0 ≤ re z ∧ im z = 0 := by
    intro z member
    have same : z = (a : 𝕜) := List.mem_singleton.mp member
    rw [same, ofReal_re, ofReal_im]
    exact ⟨nonneg, rfl⟩
  have taken : Calculus.sqrt (real a : Tensor 𝕜) =
      .ok ((real a : Tensor 𝕜).map fun z => ((√(re z) : ℝ) : 𝕜)) := if_pos defined
  rw [taken]
  simp [real, Tensor.map, Tensor.scalar]

theorem abs_real (a : ℝ) : Calculus.abs (real a : Tensor 𝕜) = .ok (real |a|) := by
  rw [real, real, ← norm_ofReal (K := 𝕜) a]
  rfl

theorem less_real (a b : ℝ) :
    Calculus.less (real a) (real b : Tensor 𝕜) = .ok (decide (a < b)) := by
  change Except.ok (decide (re (a : 𝕜) < re (b : 𝕜))) = _
  rw [ofReal_re, ofReal_re]

/-- The larger of two real numbers, as it is chosen by comparison. -/
theorem choose_larger_real (a b : ℝ) :
    (do return if ← Calculus.less (real a) (real b : Tensor 𝕜) then real b else real a) =
      (.ok (real (max a b)) : Except Fault (Tensor 𝕜)) := by
  rw [less_real]
  rcases lt_or_ge a b with below | above
  · rw [decide_eq_true below, max_eq_right below.le]
    rfl
  · rw [decide_eq_false (not_lt.mpr above), max_eq_left above]
    rfl

/-- The order of real entries is the order of real numbers. -/
theorem maximum_eq_max (a b : Tensor ℝ) : Calculus.maximum a b = entrywise max a b := by
  refine congrArg (fun f => entrywise f a b) (funext fun z => funext fun w => ?_)
  have order : Precedes z w ↔ z < w := by simp [Precedes]
  by_cases before : z < w
  · exact (if_pos (order.mpr before)).trans (max_eq_right before.le).symm
  · exact (if_neg (mt order.mp before)).trans (max_eq_left (not_lt.mp before)).symm

end Exact

end ProxGrad
