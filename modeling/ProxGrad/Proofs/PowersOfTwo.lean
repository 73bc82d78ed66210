import Mathlib.Algebra.Order.Field.Power
import Mathlib.Data.Real.Basic

/-!
# Powers of two

The literal two, and its powers with integers as exponents. These are the spacings of formats of
numbers and the bounds of their ranges.
-/

set_option autoImplicit false

namespace ProxGrad

/-- Two, the base of the formats and the exponent of the Euclidean norm, is one literal in all
definitions. -/
instance atLeastTwo_two : Nat.AtLeastTwo 2 :=
  inferInstance

namespace Binary

theorem two_zpow_pos (e : ℤ) : (0 : ℝ) < 2 ^ e :=
  zpow_pos two_pos e

theorem two_zpow_le {a b : ℤ} (le : a ≤ b) : (2 : ℝ) ^ a ≤ 2 ^ b :=
  zpow_le_zpow_right₀ one_le_two le

theorem two_zpow_lt {a b : ℤ} (lt : a < b) : (2 : ℝ) ^ a < 2 ^ b :=
  zpow_lt_zpow_right₀ one_lt_two lt

theorem two_zpow_split (a b : ℤ) : (2 : ℝ) ^ b = 2 ^ (b - a) * 2 ^ a := by
  rw [← zpow_add₀ two_ne_zero, Int.sub_add_cancel]

/-- A power of two that is a whole number of smaller ones. -/
theorem two_zpow_eq_natCast {a b : ℤ} (le : a ≤ b) :
    (2 : ℝ) ^ b = (2 ^ (b - a).toNat : ℕ) * 2 ^ a := by
  rw [two_zpow_split a b]
  congr 1
  rw [Nat.cast_pow, Nat.cast_two, ← zpow_natCast, Int.toNat_of_nonneg (by omega)]

end Binary

end ProxGrad
