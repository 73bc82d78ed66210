import Mathlib.Analysis.Real.Sqrt
import ProxGrad.Binary.Arithmetic
import ProxGrad.Proofs.Nearest

/-!
# Rounded arithmetic

Each operation on finite numbers rounds the exact result once. Here this is told of numbers that are
not negative, by their real values.
-/

set_option autoImplicit false

namespace ProxGrad

/-! ## Integer roots -/

/-- The bits found so far are those of the root: its square is at most the number, and one more in
the last place tried is too much. -/
theorem rootBits_spec {n k r : ℕ} (below : r * r ≤ n) (above : n < (r + 2 ^ k) * (r + 2 ^ k)) :
    rootBits n k r * rootBits n k r ≤ n ∧ n < (rootBits n k r + 1) * (rootBits n k r + 1) := by
  induction k generalizing r with
  | zero => exact ⟨below, above⟩
  | succ k ih =>
    rw [rootBits, Nat.one_shiftLeft]
    split_ifs with fits
    · refine ih fits ?_
      rwa [Nat.add_assoc, ← Nat.two_mul, ← Nat.pow_succ']
    · exact ih below (Nat.lt_of_not_le fits)

theorem integerRoot_spec (n : ℕ) :
    integerRoot n * integerRoot n ≤ n ∧ n < (integerRoot n + 1) * (integerRoot n + 1) := by
  refine rootBits_spec (Nat.zero_le n) ?_
  rw [Nat.zero_add, ← Nat.pow_add]
  exact Nat.lt_log2_self.trans_le (Nat.pow_le_pow_right (by decide) (by omega))

/-- A format with some bits and some range. -/
structure Format.Proper (f : Format) : Prop where
  precise : 1 < f.precision
  ranged : 2 ≤ f.maxExponent

namespace Binary

variable {f : Format} {a b r : Binary} {x y v u : ℝ}

/-! ## Values -/

/-- A finite number of a format, with its value, which is not negative. -/
def Is (f : Format) (a : Binary) (x : ℝ) : Prop :=
  ∃ m e, a = .finite false m e ∧ f.Normal m e ∧ x = m * 2 ^ e

/-- What a magnitude is rounded to where it is in range. -/
def RoundsTo (f : Format) (v u : ℝ) : Prop :=
  ∃ q t, f.Nearest v q t ∧ u = q * 2 ^ t

theorem Is.nonneg (is : Is f a x) : 0 ≤ x := by
  obtain ⟨m, e, -, -, rfl⟩ := is
  positivity

theorem Rounds.exists_is (rounds : Rounds f false v r) (proper : f.Proper)
    (inRange : v < f.infiniteFrom) : ∃ u, Is f r u ∧ RoundsTo f v u := by
  obtain ⟨q, t, m, e, nearest, finite, normal, same⟩ :=
    rounds.eq_finite proper.precise.le proper.ranged inRange
  exact ⟨m * 2 ^ e, ⟨m, e, finite, normal, rfl⟩, q, t, nearest, same⟩

namespace RoundsTo

theorem le (rounds : RoundsTo f v u) (proper : f.Proper) (represents : f.Represents y)
    (le : v ≤ y) : u ≤ y := by
  obtain ⟨q, t, nearest, rfl⟩ := rounds
  exact nearest.le_of_le proper.precise.le represents le

theorem ge (rounds : RoundsTo f v u) (proper : f.Proper) (represents : f.Represents y)
    (ge : y ≤ v) : y ≤ u := by
  obtain ⟨q, t, nearest, rfl⟩ := rounds
  exact nearest.ge_of_ge proper.precise.le represents ge

/-- A number of the format is left as it is. -/
theorem eq (rounds : RoundsTo f v u) (proper : f.Proper) (represents : f.Represents v) : u = v :=
  le_antisymm (rounds.le proper represents le_rfl) (rounds.ge proper represents le_rfl)

theorem le_two_zpow {k : ℤ} (rounds : RoundsTo f v u) (proper : f.Proper)
    (least : f.minExponent + f.precision ≤ k + 1) (le : v ≤ 2 ^ k + 2 ^ (k - f.precision)) :
    u ≤ 2 ^ k := by
  obtain ⟨q, t, nearest, rfl⟩ := rounds
  exact nearest.le_two_zpow proper.precise least le

theorem near_relative (rounds : RoundsTo f v u)
    (normal : (2 : ℝ) ^ (f.minExponent + f.precision - 1) ≤ v) :
    |u - v| ≤ v / 2 ^ f.precision := by
  obtain ⟨q, t, nearest, rfl⟩ := rounds
  exact nearest.near_relative normal

end RoundsTo

/-! ## Operations -/

theorem rounds_mul (proper : f.Proper) (left : Is f a x) (right : Is f b y) :
    Rounds f false (x * y) (mul f a b) := by
  obtain ⟨m₁, e₁, rfl, -, rfl⟩ := left
  obtain ⟨m₂, e₂, rfl, -, rfl⟩ := right
  refine rounds_round proper.precise.le proper.ranged ⟨fun _ => ?_, nofun, nofun, nofun⟩
  rw [zpow_add₀ two_ne_zero]
  push_cast
  ring

theorem shiftLeft_mul_two_zpow (m : ℕ) {e least : ℤ} (le : least ≤ e) :
    ((m <<< (e - least).toNat : ℕ) : ℝ) * 2 ^ least = m * 2 ^ e := by
  rw [two_zpow_eq_natCast le, Nat.shiftLeft_eq]
  push_cast
  ring

/-- A sum that is not negative, its second summand with either sign. -/
theorem rounds_add_signed (proper : f.Proper) (m₁ m₂ : ℕ) (e₁ e₂ : ℤ) (s : Bool)
    (nonneg : 0 ≤ (m₁ : ℝ) * 2 ^ e₁ + (if s then -1 else 1) * (m₂ * 2 ^ e₂)) :
    Rounds f false ((m₁ : ℝ) * 2 ^ e₁ + (if s then -1 else 1) * (m₂ * 2 ^ e₂))
      (add f (.finite false m₁ e₁) (.finite s m₂ e₂)) := by
  unfold add align
  dsimp only
  generalize aligned : (m₁ <<< (e₁ - min e₁ e₂).toNat : ℕ) = k₁
  generalize aligned' : (m₂ <<< (e₂ - min e₁ e₂).toNat : ℕ) = k₂
  have first := shiftLeft_mul_two_zpow m₁ (min_le_left e₁ e₂)
  have second := shiftLeft_mul_two_zpow m₂ (min_le_right e₁ e₂)
  rw [aligned] at first
  rw [aligned'] at second
  rw [← first, ← second] at nonneg ⊢
  have unit := two_zpow_pos (min e₁ e₂)
  generalize min e₁ e₂ = e at *
  simp only [Bool.false_eq_true, if_false, Bool.false_and]
  obtain ⟨total, same⟩ : ∃ total : ℤ, total = k₁ + (if s then -(k₂ : ℤ) else k₂) := ⟨_, rfl⟩
  have value : (k₁ : ℝ) * 2 ^ e + (if s then -1 else 1) * (k₂ * 2 ^ e) = total * 2 ^ e := by
    rw [same]
    cases s <;> simp <;> ring
  rw [value] at nonneg ⊢
  rw [← same]
  have positive : 0 ≤ total := by
    have := nonneg_of_mul_nonneg_left nonneg unit
    exact_mod_cast this
  split_ifs with zero
  · refine rounds_round proper.precise.le proper.ranged ⟨fun _ => ?_, nofun, nofun, nofun⟩
    rw [zero]
    simp
  · have sign : decide (total < 0) = false := by simpa using positive
    rw [sign]
    refine rounds_round proper.precise.le proper.ranged ⟨fun _ => ?_, nofun, nofun, nofun⟩
    rw [Nat.cast_natAbs, abs_of_nonneg positive]

theorem rounds_add (proper : f.Proper) (left : Is f a x) (right : Is f b y) :
    Rounds f false (x + y) (add f a b) := by
  have nonneg := add_nonneg left.nonneg right.nonneg
  obtain ⟨m₁, e₁, rfl, -, rfl⟩ := left
  obtain ⟨m₂, e₂, rfl, -, rfl⟩ := right
  have rounds := rounds_add_signed proper m₁ m₂ e₁ e₂ false
  simp only [Bool.false_eq_true, if_false, one_mul] at rounds
  exact rounds nonneg

theorem rounds_sub (proper : f.Proper) (left : Is f a x) (right : Is f b y) (le : y ≤ x) :
    Rounds f false (x - y) (sub f a b) := by
  obtain ⟨m₁, e₁, rfl, -, rfl⟩ := left
  obtain ⟨m₂, e₂, rfl, -, rfl⟩ := right
  have rounds := rounds_add_signed proper m₁ m₂ e₁ e₂ true
  simp only [if_true, neg_one_mul, ← sub_eq_add_neg, sub_nonneg] at rounds
  exact rounds le

theorem rounds_div (proper : f.Proper) (left : Is f a x) (right : Is f b y) (positive : 0 < y) :
    Rounds f false (x / y) (div f a b) := by
  obtain ⟨m₁, e₁, rfl, -, rfl⟩ := left
  obtain ⟨m₂, e₂, rfl, -, rfl⟩ := right
  have nonzero : m₂ ≠ 0 := by
    rintro rfl
    simp at positive
  have quotient : (m₁ : ℝ) * 2 ^ e₁ / (m₂ * 2 ^ e₂) = m₁ / m₂ * 2 ^ (e₁ - e₂) := by
    rw [zpow_sub₀ two_ne_zero, mul_div_mul_comm]
  rw [quotient, div, if_neg nonzero]
  exact rounds_round proper.precise.le proper.ranged (stands_div m₁ nonzero (e₁ - e₂))

/-- A root taken with more bits than the format has, and at an even exponent, stands for the exact
one. -/
theorem rounds_rootOfDyadic (proper : f.Proper) {m : ℕ} (nonzero : m ≠ 0) (e : ℤ) :
    Rounds f false √(m * 2 ^ e) (rootOfDyadic f m e) := by
  unfold rootOfDyadic
  dsimp only
  generalize width : 2 * (f.precision + 2) - m.log2 = room
  generalize spread : (if (e - room) % 2 = 0 then room else room + 1) = shift
  obtain ⟨half, even⟩ : ∃ half : ℤ, e - shift = 2 * half := by
    refine ⟨(e - shift) / 2, ?_⟩
    split_ifs at spread <;> omega
  have enough : room ≤ shift := by split_ifs at spread <;> omega
  have exponent : (e - shift) / 2 = half := by omega
  rw [exponent]
  have widened : 2 ^ (f.precision + 2) * 2 ^ (f.precision + 2) ≤ m <<< shift := by
    rw [← Nat.pow_add, Nat.shiftLeft_eq]
    calc 2 ^ (f.precision + 2 + (f.precision + 2)) ≤ 2 ^ (m.log2 + shift) :=
          Nat.pow_le_pow_right (by decide) (by omega)
      _ = 2 ^ m.log2 * 2 ^ shift := Nat.pow_add _ _ _
      _ ≤ m * 2 ^ shift := Nat.mul_le_mul_right _ (Nat.log2_self_le nonzero)
  have scale : (m : ℝ) * 2 ^ e = (m <<< shift : ℕ) * (2 ^ half) ^ 2 := by
    rw [← zpow_natCast, ← zpow_mul, Nat.shiftLeft_eq, two_zpow_split (e - shift) e, sub_sub_cancel,
      zpow_natCast, even, mul_comm half]
    push_cast
    ring
  have unit := two_zpow_pos half
  rw [scale, Real.sqrt_mul (Nat.cast_nonneg _), Real.sqrt_sq unit.le]
  generalize m <<< shift = n at widened
  obtain ⟨below, above⟩ := integerRoot_spec n
  have atLeast : ((integerRoot n : ℕ) : ℝ) ≤ √n :=
    Real.le_sqrt_of_sq_le (by rw [sq]; exact_mod_cast below)
  refine rounds_round proper.precise.le proper.ranged ⟨fun whole => ?_, fun between => ?_,
    fun _ => ?_, fun _ => ?_⟩
  · have square : integerRoot n * integerRoot n = n := by simpa using whole
    have exact : √(n : ℝ) = integerRoot n := by
      rw [Real.sqrt_eq_iff_mul_self_eq (Nat.cast_nonneg _) (Nat.cast_nonneg _)]
      exact_mod_cast square.symm
    rw [exact]
  · have different : integerRoot n * integerRoot n ≠ n := by simpa using between
    refine mul_lt_mul_of_pos_right (Real.lt_sqrt_of_sq_lt ?_) unit
    rw [sq]
    exact_mod_cast lt_of_le_of_ne below different
  · refine mul_lt_mul_of_pos_right ?_ unit
    rw [Real.sqrt_lt' (by positivity), sq]
    exact_mod_cast above
  · have many : 2 ^ f.precision ≤ integerRoot n := by
      by_contra few
      have small : integerRoot n + 1 ≤ 2 ^ (f.precision + 2) :=
        (Nat.lt_of_not_le few).trans_le (Nat.pow_le_pow_right (by decide) (Nat.le_add_right _ 2))
      have := Nat.mul_le_mul small small
      omega
    exact (Nat.le_log2 (Nat.ne_of_gt ((Nat.two_pow_pos _).trans_le many))).mpr many

theorem rounds_sqrt (proper : f.Proper) (is : Is f a x) : Rounds f false √x (sqrt f a) := by
  obtain ⟨m, e, rfl, -, rfl⟩ := is
  rw [sqrt]
  simp only [Bool.false_eq_true, if_false]
  split_ifs with zero
  · refine rounds_round proper.precise.le proper.ranged ⟨fun _ => ?_, nofun, nofun, nofun⟩
    rw [zero]
    simp
  · exact rounds_rootOfDyadic proper zero e

end Binary

end ProxGrad
