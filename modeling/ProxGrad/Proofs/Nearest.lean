import Mathlib.Tactic.Linarith
import Mathlib.Tactic.Positivity
import Mathlib.Tactic.Push
import Mathlib.Tactic.Ring
import ProxGrad.Proofs.PowersOfTwo
import ProxGrad.Proofs.Rounding

/-!
# Nearest numbers

What rounding gives, told by real magnitudes: the nearest multiple of the spacing that the format
has there, a tie going to the even one. Hence a magnitude on one side of a number of the format
stays on that side, and exact bounds say which magnitudes become infinite and which become zero.
-/

set_option autoImplicit false

namespace ProxGrad

namespace Format

/-- The least magnitude that becomes infinite: the middle between the largest number of the format
and the power of two beyond it. -/
noncomputable def infiniteFrom (f : Format) : ℝ :=
  2 ^ (f.maxExponent : ℤ) - 2 ^ ((f.maxExponent : ℤ) - f.precision - 1)

/-- The largest magnitude that becomes zero, half of the least positive number of the format. -/
noncomputable def zeroUpTo (f : Format) : ℝ :=
  2 ^ (f.minExponent - 1)

theorem two_zpow_le_infiniteFrom (f : Format) (precise : 0 < f.precision) :
    (2 : ℝ) ^ ((f.maxExponent : ℤ) - 1) ≤ f.infiniteFrom := by
  have gap : (2 : ℝ) ^ ((f.maxExponent : ℤ) - f.precision - 1) ≤ 2 ^ ((f.maxExponent : ℤ) - 1) :=
    zpow_le_zpow_right₀ one_le_two (by omega)
  have double : (2 : ℝ) ^ (f.maxExponent : ℤ) = 2 ^ ((f.maxExponent : ℤ) - 1) * 2 := by
    rw [← zpow_add_one₀ two_ne_zero, sub_add_cancel]
  rw [infiniteFrom]
  linarith

theorem infiniteFrom_lt (f : Format) : f.infiniteFrom < 2 ^ f.maxExponent := by
  have gap : (0 : ℝ) < 2 ^ ((f.maxExponent : ℤ) - f.precision - 1) := zpow_pos two_pos _
  rw [infiniteFrom, zpow_natCast]
  linarith

theorem zeroUpTo_lt_infiniteFrom (f : Format) (precise : 0 < f.precision)
    (ranged : 2 ≤ f.maxExponent) : f.zeroUpTo < f.infiniteFrom := by
  refine lt_of_lt_of_le ?_ (f.two_zpow_le_infiniteFrom precise)
  refine zpow_lt_zpow_right₀ one_lt_two ?_
  rw [minExponent]
  omega

/-- The multiple of a power of two nearest to a magnitude, a tie going to the even one, where the
power is the spacing of the format at the magnitude. -/
structure Nearest (f : Format) (v : ℝ) (q : ℕ) (t : ℤ) : Prop where
  least : f.minExponent ≤ t
  below : v < 2 ^ (t + f.precision)
  full : t = f.minExponent ∨ 2 ^ (t + f.precision - 1) ≤ v
  near : |q * 2 ^ t - v| ≤ 2 ^ t / 2
  even : |q * 2 ^ t - v| = 2 ^ t / 2 → q % 2 = 0

/-- A magnitude that is a number of the format, or would be one if exponents had no upper bound. -/
def Represents (f : Format) (y : ℝ) : Prop :=
  ∃ (m : ℕ) (e : ℤ), m ≤ 2 ^ f.precision ∧ f.minExponent ≤ e ∧ y = m * 2 ^ e

end Format

/-! ## The magnitude that is rounded -/

namespace Binary

/-- The magnitude told by what is rounded: `m * 2 ^ e`, or with `inexact` one strictly between it
and the next multiple, `m` then having more bits than the format. -/
structure Stands (f : Format) (m : ℕ) (e : ℤ) (inexact : Bool) (v : ℝ) : Prop where
  exact : inexact = false → v = m * 2 ^ e
  above : inexact = true → m * 2 ^ e < v
  below : inexact = true → v < (m + 1) * 2 ^ e
  bits : inexact = true → f.precision ≤ m.log2

variable {f : Format} {m k q : ℕ} {e t : ℤ} {inexact negative : Bool} {v x y : ℝ}

namespace Stands

theorem le (stands : Stands f m e inexact v) : m * 2 ^ e ≤ v := by
  cases inexact with
  | false => exact (stands.exact rfl).ge
  | true => exact (stands.above rfl).le

theorem lt (stands : Stands f m e inexact v) : v < (m + 1) * 2 ^ e := by
  cases inexact with
  | false =>
    rw [stands.exact rfl]
    exact mul_lt_mul_of_pos_right (lt_add_one _) (two_zpow_pos e)
  | true => exact stands.below rfl

theorem lt_two_zpow (stands : Stands f m e inexact v) : v < 2 ^ (e + m.log2 + 1) := by
  have whole : (m : ℝ) + 1 ≤ (2 ^ (m.log2 + 1) : ℕ) := by
    exact_mod_cast Nat.lt_log2_self
  calc v < (m + 1) * 2 ^ e := stands.lt
    _ ≤ (2 ^ (m.log2 + 1) : ℕ) * 2 ^ e := mul_le_mul_of_nonneg_right whole (two_zpow_pos e).le
    _ = 2 ^ (e + m.log2 + 1) := by
      rw [two_zpow_eq_natCast (show e ≤ e + m.log2 + 1 by omega)]
      congr 4
      omega

theorem two_zpow_le (stands : Stands f m e inexact v) (nonzero : m ≠ 0) :
    2 ^ (e + m.log2) ≤ v := by
  have leading : ((2 ^ m.log2 : ℕ) : ℝ) ≤ m := by
    exact_mod_cast Nat.log2_self_le nonzero
  calc (2 : ℝ) ^ (e + m.log2) = (2 ^ m.log2 : ℕ) * 2 ^ e := by
        rw [two_zpow_eq_natCast (show e ≤ e + m.log2 by omega)]
        congr 4
        omega
    _ ≤ m * 2 ^ e := mul_le_mul_of_nonneg_right leading (two_zpow_pos e).le
    _ ≤ v := stands.le

end Stands

/-! ## The spacing -/

/-- In units of the smaller power, a rounded shift is within half of the larger one. -/
theorem near_roundShift (exact : inexact = false → x = m) (above : inexact = true → (m : ℝ) < x)
    (below : inexact = true → x < m + 1) :
    |roundShift m (k + 1) inexact * (2 : ℝ) ^ (k + 1) - x| ≤ 2 ^ (k + 1) / 2 ∧
      (|roundShift m (k + 1) inexact * (2 : ℝ) ^ (k + 1) - x| = 2 ^ (k + 1) / 2 →
        roundShift m (k + 1) inexact % 2 = 0) := by
  have unit : 2 ^ (k + 1) = 2 * 2 ^ k := Nat.pow_succ'
  have unit' : (2 : ℝ) ^ (k + 1) = 2 * (2 ^ k : ℕ) := by exact_mod_cast unit
  have inside := Nat.mod_lt m (Nat.two_pow_pos (k + 1))
  have parts := Nat.div_add_mod m (2 ^ (k + 1))
  rw [roundShift_eq, unit']
  generalize m / 2 ^ (k + 1) = c at *
  generalize m % 2 ^ (k + 1) = r at *
  rw [unit] at *
  generalize 2 ^ k = u at *
  obtain ⟨d, rfl⟩ : ∃ d, x = 2 * u * c + r + d := ⟨x - (2 * u * c + r), by ring⟩
  have whole : (m : ℝ) = 2 * u * c + r := by exact_mod_cast parts.symm
  have rest : 0 ≤ d ∧ d < 1 ∧ (inexact = true → 0 < d) ∧ (inexact = false → d = 0) := by
    cases inexact with
    | false =>
      have := exact rfl
      refine ⟨?_, ?_, fun h => ?_, fun _ => ?_⟩ <;> first | linarith | cases h
    | true =>
      have := above rfl
      have := below rfl
      refine ⟨?_, ?_, fun _ => ?_, fun h => ?_⟩ <;> first | linarith | cases h
  obtain ⟨nonneg, small, positive, zero⟩ := rest
  split_ifs with up
  · have enough : (u : ℝ) ≤ r := by exact_mod_cast (by omega : u ≤ r)
    have few : (r : ℝ) + 1 ≤ 2 * u := by exact_mod_cast inside
    rw [Nat.cast_succ, abs_of_nonneg (by linarith)]
    refine ⟨by linarith, fun tie => ?_⟩
    have same : r = u := by
      have : (r : ℝ) ≤ u := by linarith
      exact Nat.le_antisymm (by exact_mod_cast this) (by exact_mod_cast enough)
    rcases up with more | ⟨-, rfl | odd⟩
    · omega
    · linarith [positive rfl]
    · omega
  · have few : (r : ℝ) + d ≤ u := by
      rcases Nat.lt_or_ge r u with less | more
      · have : (r : ℝ) + 1 ≤ u := by exact_mod_cast less
        linarith
      · have : (r : ℝ) ≤ u := by exact_mod_cast (by omega : r ≤ u)
        have sharp : inexact = false := by
          by_contra between
          exact up (by grind)
        linarith [zero sharp]
    have some : (0 : ℝ) ≤ r := Nat.cast_nonneg r
    rw [abs_of_nonpos (by linarith)]
    refine ⟨by linarith, fun tie => ?_⟩
    by_contra odd
    have same : u ≤ r := by
      by_contra less
      have : (r : ℝ) + 1 ≤ u := by exact_mod_cast (by omega : r + 1 ≤ u)
      linarith
    exact up (by grind)

/-- The significand in the units of the target is the nearest multiple. -/
theorem nearest_inUnits (stands : Stands f m e inexact v) (nonzero : m ≠ 0)
    (placed : max (e + m.log2 + 1 - f.precision) f.minExponent = t) :
    f.Nearest v (inUnits m e t inexact) t := by
  have near : |inUnits m e t inexact * 2 ^ t - v| ≤ 2 ^ t / 2 ∧
      (|inUnits m e t inexact * 2 ^ t - v| = 2 ^ t / 2 → inUnits m e t inexact % 2 = 0) := by
    have spacing := two_zpow_pos t
    by_cases left : t ≤ e
    · have whole : inexact = false := by
        by_contra between
        have bits := stands.bits (Bool.not_eq_false _ ▸ between)
        omega
      have same : inUnits m e t inexact * 2 ^ t = v := by
        rw [inUnits, if_pos left, stands.exact whole, two_zpow_eq_natCast left, Nat.shiftLeft_eq,
          Nat.cast_mul, mul_assoc]
      rw [same, sub_self, abs_zero]
      exact ⟨by positivity, fun tie => by linarith⟩
    · obtain ⟨k, apart⟩ : ∃ k : ℕ, t = e + (k + 1 : ℕ) := ⟨(t - e - 1).toNat, by omega⟩
      have unit := two_zpow_pos e
      have shift : (t - e).toNat = k + 1 := by omega
      have scale : (2 : ℝ) ^ t = 2 ^ (k + 1) * 2 ^ e := by
        rw [apart, add_comm, zpow_add₀ two_ne_zero, zpow_natCast]
      obtain ⟨x, rfl⟩ : ∃ x, v = x * 2 ^ e := ⟨v / 2 ^ e, (div_mul_cancel₀ v unit.ne').symm⟩
      have rounded := near_roundShift (k := k) (x := x)
        (fun h => mul_right_cancel₀ unit.ne' (stands.exact h))
        (fun h => lt_of_mul_lt_mul_right (stands.above h) unit.le)
        (fun h => lt_of_mul_lt_mul_right (stands.below h) unit.le)
      rw [inUnits, if_neg left, shift, scale, ← mul_assoc, ← sub_mul, abs_mul, abs_of_pos unit,
        mul_div_right_comm]
      exact ⟨mul_le_mul_of_nonneg_right rounded.1 unit.le,
        fun tie => rounded.2 (mul_right_cancel₀ unit.ne' tie)⟩
  refine ⟨by omega, stands.lt_two_zpow.trans_le (two_zpow_le (by omega)), ?_, near.1, near.2⟩
  by_cases least : t = f.minExponent
  · exact .inl least
  · exact .inr ((two_zpow_le (by omega)).trans (stands.two_zpow_le nonzero))

end Binary

/-! ## The order -/

namespace Format.Nearest

open Binary

variable {f : Format} {v y : ℝ} {q k : ℕ} {t a : ℤ}

theorem le_of_le_mul (nearest : f.Nearest v q t) (le : v ≤ k * 2 ^ t) : q ≤ k := by
  by_contra more
  have spacing := two_zpow_pos t
  have next : (k : ℝ) + 1 ≤ q := by exact_mod_cast Nat.lt_of_not_le more
  have apart := (le_abs_self _).trans nearest.near
  nlinarith [mul_le_mul_of_nonneg_right next spacing.le]

theorem le_of_mul_le (nearest : f.Nearest v q t) (le : k * 2 ^ t ≤ v) : k ≤ q := by
  by_contra less
  have spacing := two_zpow_pos t
  have next : (q : ℝ) + 1 ≤ k := by exact_mod_cast Nat.lt_of_not_le less
  have apart := (neg_le_abs _).trans nearest.near
  nlinarith [mul_le_mul_of_nonneg_right next spacing.le]

theorem two_zpow_add_sub_one (precise : 0 < f.precision) (t : ℤ) :
    (2 : ℝ) ^ (t + f.precision - 1) = (2 ^ (f.precision - 1) : ℕ) * 2 ^ t := by
  rw [two_zpow_eq_natCast (show t ≤ t + f.precision - 1 by omega)]
  congr 3
  omega

theorem two_zpow_add (t : ℤ) : (2 : ℝ) ^ (t + f.precision) = (2 ^ f.precision : ℕ) * 2 ^ t := by
  rw [two_zpow_eq_natCast (show t ≤ t + f.precision by omega)]
  congr 3
  omega

/-- A number of the format is a multiple of the spacing, or not above the power of two from which on
the format has that spacing. -/
theorem exists_eq_mul (precise : 0 < f.precision) (represents : f.Represents y) (t : ℤ) :
    (∃ k : ℕ, y = k * 2 ^ t) ∨ y ≤ (2 ^ (f.precision - 1) : ℕ) * 2 ^ t ∧ t ≠ f.minExponent := by
  obtain ⟨m, e, bits, least, rfl⟩ := represents
  by_cases fine : t ≤ e
  · refine .inl ⟨m * 2 ^ (e - t).toNat, ?_⟩
    rw [two_zpow_eq_natCast fine, Nat.cast_mul, mul_assoc]
  · refine .inr ⟨?_, by omega⟩
    have few : (m : ℝ) ≤ (2 ^ f.precision : ℕ) := by exact_mod_cast bits
    calc (m : ℝ) * 2 ^ e ≤ (2 ^ f.precision : ℕ) * 2 ^ e :=
          mul_le_mul_of_nonneg_right few (two_zpow_pos e).le
      _ = 2 ^ (e + f.precision) := (two_zpow_add e).symm
      _ ≤ 2 ^ (t + f.precision - 1) := two_zpow_le (by omega)
      _ = (2 ^ (f.precision - 1) : ℕ) * 2 ^ t := two_zpow_add_sub_one precise t

theorem le_of_le (nearest : f.Nearest v q t) (precise : 0 < f.precision)
    (represents : f.Represents y) (le : v ≤ y) : q * 2 ^ t ≤ y := by
  obtain ⟨k, rfl⟩ | ⟨low, spaced⟩ := exists_eq_mul precise represents t
  · exact mul_le_mul_of_nonneg_right (by exact_mod_cast nearest.le_of_le_mul le) (two_zpow_pos t).le
  · have full := nearest.full.resolve_left spaced
    rw [two_zpow_add_sub_one precise] at full
    rw [(full.trans le).antisymm' low]
    exact mul_le_mul_of_nonneg_right (by exact_mod_cast nearest.le_of_le_mul (le.trans low))
      (two_zpow_pos t).le

theorem ge_of_ge (nearest : f.Nearest v q t) (precise : 0 < f.precision)
    (represents : f.Represents y) (ge : y ≤ v) : y ≤ q * 2 ^ t := by
  obtain ⟨k, rfl⟩ | ⟨low, spaced⟩ := exists_eq_mul precise represents t
  · exact mul_le_mul_of_nonneg_right (by exact_mod_cast nearest.le_of_mul_le ge) (two_zpow_pos t).le
  · have full := nearest.full.resolve_left spaced
    rw [two_zpow_add_sub_one precise] at full
    exact low.trans (mul_le_mul_of_nonneg_right (by exact_mod_cast nearest.le_of_mul_le full)
      (two_zpow_pos t).le)

/-- A magnitude at most half a spacing above a power of two comes back to it: the power is even. -/
theorem le_two_zpow (nearest : f.Nearest v q t) (precise : 1 < f.precision)
    (least : f.minExponent + f.precision ≤ a + 1) (le : v ≤ 2 ^ a + 2 ^ (a - f.precision)) :
    (q : ℝ) * 2 ^ t ≤ 2 ^ a := by
  have top : (2 : ℝ) ^ a = (2 ^ (f.precision - 1) : ℕ) * 2 ^ (a + 1 - f.precision) := by
    rw [← two_zpow_add_sub_one (by omega)]
    congr 1
    omega
  have represents : f.Represents (2 ^ a) :=
    ⟨_, _, Nat.pow_le_pow_right (by decide) (Nat.sub_le _ 1), by omega, top⟩
  rcases le_total v (2 ^ a) with low | high
  · exact nearest.le_of_le (by omega) represents low
  have half : (2 : ℝ) ^ (a - f.precision) = 2 ^ (a + 1 - f.precision) / 2 := by
    rw [show a + 1 - (f.precision : ℤ) = a - f.precision + 1 by omega, zpow_add_one₀ two_ne_zero]
    ring
  have spacing : t = a + 1 - f.precision := by
    refine le_antisymm ?_ ?_
    · by_contra coarse
      obtain least' | full := nearest.full
      · omega
      · have wide : (2 : ℝ) ^ (a + 1) ≤ v := (two_zpow_le (by omega)).trans full
        have double : (2 : ℝ) ^ (a + 1) = 2 * 2 ^ a := by
          rw [zpow_add_one₀ two_ne_zero, mul_comm]
        have small : (2 : ℝ) ^ (a - f.precision) < 2 ^ a := two_zpow_lt (by omega)
        linarith
    · by_contra fine
      have few : v < 2 ^ a := nearest.below.trans_le (two_zpow_le (by omega))
      linarith
  subst spacing
  rw [top]
  refine mul_le_mul_of_nonneg_right ?_ (two_zpow_pos _).le
  by_contra more
  have next : 2 ^ (f.precision - 1) + 1 ≤ q := by exact_mod_cast lt_of_not_ge more
  have unit := two_zpow_pos (a + 1 - f.precision)
  have above : ((2 ^ (f.precision - 1) : ℕ) + 1 : ℝ) * 2 ^ (a + 1 - f.precision) ≤
      q * 2 ^ (a + 1 - f.precision) :=
    mul_le_mul_of_nonneg_right (by exact_mod_cast next) unit.le
  rw [add_mul, one_mul, ← top] at above
  have apart := (le_abs_self _).trans nearest.near
  have even := nearest.even (le_antisymm nearest.near (by
    refine le_trans ?_ (le_abs_self _)
    linarith))
  have same : q ≤ 2 ^ (f.precision - 1) + 1 := by
    have bound : (q : ℝ) * 2 ^ (a + 1 - f.precision) ≤
        ((2 ^ (f.precision - 1) : ℕ) + 1 : ℝ) * 2 ^ (a + 1 - f.precision) := by
      rw [add_mul, one_mul, ← top]
      linarith
    exact_mod_cast le_of_mul_le_mul_right bound unit
  obtain ⟨p, split⟩ : ∃ p, f.precision - 1 = p + 1 := ⟨f.precision - 2, by omega⟩
  rw [split, Nat.pow_succ] at next same
  omega

/-! ## The range -/

theorem le_two_pow (nearest : f.Nearest v q t) : q ≤ 2 ^ f.precision :=
  nearest.le_of_le_mul (two_zpow_add t ▸ nearest.below.le)

theorem two_pow_le (nearest : f.Nearest v q t) (precise : 0 < f.precision)
    (spaced : t ≠ f.minExponent) : 2 ^ (f.precision - 1) ≤ q :=
  nearest.le_of_mul_le (two_zpow_add_sub_one precise t ▸ nearest.full.resolve_left spaced)

/-- The magnitudes that leave the range. Only with the largest spacing in it may rounding up do
so. -/
theorem two_zpow_le_iff (nearest : f.Nearest v q t) (precise : 0 < f.precision)
    (ranged : 2 ≤ f.maxExponent) :
    (2 : ℝ) ^ (f.maxExponent : ℤ) ≤ q * 2 ^ t ↔ f.infiniteFrom ≤ v := by
  have spacing := two_zpow_pos t
  rcases lt_trichotomy (t + f.precision) (f.maxExponent : ℤ) with fine | last | coarse
  · -- All magnitudes with a smaller spacing are in range.
    have few : (2 : ℝ) ^ (t + f.precision) ≤ 2 ^ ((f.maxExponent : ℤ) - 1) := two_zpow_le (by omega)
    have double : (2 : ℝ) ^ (f.maxExponent : ℤ) = 2 * 2 ^ ((f.maxExponent : ℤ) - 1) := by
      rw [two_zpow_split 1 (f.maxExponent : ℤ), mul_comm, zpow_one]
    have gap : (2 : ℝ) ^ ((f.maxExponent : ℤ) - f.precision - 1) ≤ 2 ^ ((f.maxExponent : ℤ) - 1) :=
      two_zpow_le (by omega)
    have positive := two_zpow_pos ((f.maxExponent : ℤ) - 1)
    have bits : (q : ℝ) * 2 ^ t ≤ (2 ^ f.precision : ℕ) * 2 ^ t :=
      mul_le_mul_of_nonneg_right (by exact_mod_cast nearest.le_two_pow) spacing.le
    rw [← two_zpow_add] at bits
    refine iff_of_false (by linarith) (not_le_of_gt ?_)
    rw [Format.infiniteFrom]
    linarith [nearest.below]
  · have top : (2 : ℝ) ^ (f.maxExponent : ℤ) = (2 ^ f.precision : ℕ) * 2 ^ t := by
      rw [← last, two_zpow_add]
    have half : (2 : ℝ) ^ ((f.maxExponent : ℤ) - f.precision - 1) = 2 ^ t / 2 := by
      rw [show (f.maxExponent : ℤ) - f.precision - 1 = t - 1 by omega, zpow_sub_one₀ two_ne_zero,
        div_eq_mul_inv]
    rw [Format.infiniteFrom, half, top]
    constructor
    · intro carried
      linarith [(le_abs_self _).trans nearest.near]
    · intro high
      by_contra less
      have fewer : q + 1 ≤ 2 ^ f.precision := by
        have := lt_of_mul_lt_mul_right (lt_of_not_ge less) spacing.le
        exact_mod_cast this
      have bound : ((q : ℝ) + 1) * 2 ^ t ≤ (2 ^ f.precision : ℕ) * 2 ^ t :=
        mul_le_mul_of_nonneg_right (by exact_mod_cast fewer) spacing.le
      rw [add_mul, one_mul] at bound
      have apart := (neg_le_abs _).trans nearest.near
      have even := nearest.even (le_antisymm nearest.near (le_trans (by linarith) (neg_le_abs _)))
      have last : 2 ^ f.precision ≤ q + 1 := by
        have : ((2 ^ f.precision : ℕ) : ℝ) * 2 ^ t ≤ ((q : ℝ) + 1) * 2 ^ t := by
          rw [add_mul, one_mul]
          linarith
        exact_mod_cast le_of_mul_le_mul_right this spacing
      obtain ⟨p, split⟩ := Nat.exists_eq_add_of_lt precise
      rw [split, Nat.zero_add, Nat.pow_succ] at last fewer
      omega
  · have spaced : t ≠ f.minExponent := by
      rw [Format.minExponent]
      omega
    have positive := two_zpow_pos ((f.maxExponent : ℤ) - f.precision - 1)
    have full := nearest.full.resolve_left spaced
    have wide : (2 : ℝ) ^ (f.maxExponent : ℤ) ≤ 2 ^ (t + f.precision - 1) := two_zpow_le (by omega)
    have bits : ((2 ^ (f.precision - 1) : ℕ) : ℝ) * 2 ^ t ≤ q * 2 ^ t :=
      mul_le_mul_of_nonneg_right (by exact_mod_cast nearest.two_pow_le precise spaced) spacing.le
    rw [← two_zpow_add_sub_one precise] at bits
    refine iff_of_true (wide.trans bits) ?_
    rw [Format.infiniteFrom]
    linarith

theorem eq_zero_iff (nearest : f.Nearest v q t) (precise : 0 < f.precision) (nonneg : 0 ≤ v) :
    q = 0 ↔ v ≤ f.zeroUpTo := by
  have spacing := two_zpow_pos t
  have least : (2 : ℝ) ^ f.minExponent ≤ 2 ^ t := two_zpow_le nearest.least
  have half : f.zeroUpTo = 2 ^ f.minExponent / 2 := by
    rw [Format.zeroUpTo, zpow_sub_one₀ two_ne_zero, div_eq_mul_inv]
  rw [half]
  constructor
  · rintro rfl
    have apart := nearest.near
    rw [Nat.cast_zero, zero_mul, zero_sub, abs_neg, abs_of_nonneg nonneg] at apart
    by_cases spaced : t = f.minExponent
    · rwa [spaced] at apart
    · have bits := nearest.two_pow_le precise spaced
      exact absurd bits (Nat.not_le_of_lt (Nat.two_pow_pos _))
  · intro low
    have atMost : q ≤ 1 := nearest.le_of_le_mul (by rw [Nat.cast_one, one_mul]; linarith)
    by_contra nonzero
    obtain rfl : q = 1 := by omega
    have apart := (le_abs_self _).trans nearest.near
    rw [Nat.cast_one, one_mul] at apart
    have even := nearest.even (le_antisymm nearest.near (le_trans (by
      rw [Nat.cast_one, one_mul]
      linarith) (le_abs_self _)))
    omega

/-- Above the least exponent the error is relative to the magnitude. -/
theorem near_relative (nearest : f.Nearest v q t)
    (normal : (2 : ℝ) ^ (f.minExponent + f.precision - 1) ≤ v) :
    |q * 2 ^ t - v| ≤ v / 2 ^ f.precision := by
  have full : (2 : ℝ) ^ (t + f.precision - 1) ≤ v := by
    obtain least | full := nearest.full
    · rwa [least]
    · exact full
  have scale : (2 : ℝ) ^ (t + f.precision - 1) = 2 ^ t / 2 * 2 ^ f.precision := by
    rw [zpow_sub_one₀ two_ne_zero, zpow_add₀ two_ne_zero, zpow_natCast]
    ring
  rw [le_div_iff₀ (by positivity)]
  rw [scale] at full
  exact (mul_le_mul_of_nonneg_right nearest.near (by positivity)).trans full

end Format.Nearest

/-! ## Rounded numbers -/

namespace Binary

variable {f : Format} {m : ℕ} {e : ℤ} {inexact negative : Bool} {v y : ℝ} {r : Binary}

noncomputable def magnitude : Binary → ℝ
  | .finite _ m e => m * 2 ^ e
  | _ => 0

/-- What rounding a magnitude gives: a number of the format at the nearest multiple of the spacing,
or an infinity where that is out of range. -/
def Rounds (f : Format) (negative : Bool) (v : ℝ) (r : Binary) : Prop :=
  ∃ q t, f.Nearest v q t ∧
    (r = .infinite negative ∧ (2 : ℝ) ^ (f.maxExponent : ℤ) ≤ q * 2 ^ t ∨
      ∃ m e, r = .finite negative m e ∧ f.Normal m e ∧ (m : ℝ) * 2 ^ e = q * 2 ^ t)

theorem rounds_round (precise : 0 < f.precision) (ranged : 2 ≤ f.maxExponent)
    (stands : Stands f m e inexact v) : Rounds f negative v (round f negative m e inexact) := by
  by_cases zero : m = 0
  · subst zero
    have whole : inexact = false := by
      by_contra between
      have bits := stands.bits (Bool.not_eq_false _ ▸ between)
      exact absurd bits (Nat.not_le_of_lt (by simpa using precise))
    have nothing : v = 0 := by simpa using stands.exact whole
    refine ⟨0, f.minExponent, ⟨le_rfl, ?_, .inl rfl, ?_, fun _ => rfl⟩, .inr ?_⟩
    · rw [nothing]
      exact two_zpow_pos _
    · have := two_zpow_pos f.minExponent
      simp only [nothing, Nat.cast_zero, zero_mul, sub_self, abs_zero]
      linarith
    · refine ⟨0, f.minExponent, if_pos rfl, ⟨Nat.two_pow_pos _, le_rfl, ?_, .inl rfl⟩, rfl⟩
      rw [Format.minExponent]
      omega
  · generalize placed : max (e + m.log2 + 1 - f.precision) f.minExponent = t
    generalize scaled : inUnits m e t inexact = q
    have nearest := nearest_inUnits stands zero placed
    have spacing := two_zpow_pos t
    rw [scaled] at nearest
    refine ⟨q, t, nearest, ?_⟩
    have normal := exists_round_normal precise ranged negative m e inexact
    rw [round_eq zero placed scaled] at normal ⊢
    split_ifs at normal ⊢ with carry beyond beyond
    · refine .inl ⟨rfl, ?_⟩
      rw [carry, ← Format.Nearest.two_zpow_add]
      exact two_zpow_le (by omega)
    · obtain impossible | ⟨m', e', same, normal⟩ := normal
      · cases impossible
      · cases same
        refine .inr ⟨_, _, rfl, normal, ?_⟩
        obtain ⟨p, split⟩ := Nat.exists_eq_add_of_lt precise
        have half : q = 2 * (q / 2) := by
          rw [carry, split, Nat.zero_add, Nat.pow_succ]
          omega
        rw [zpow_add_one₀ two_ne_zero]
        nth_rewrite 2 [half]
        push_cast
        ring
    · refine .inl ⟨rfl, ?_⟩
      have spaced : t ≠ f.minExponent := by
        rw [Format.minExponent]
        omega
      calc (2 : ℝ) ^ (f.maxExponent : ℤ) ≤ 2 ^ (t + f.precision - 1) := two_zpow_le (by omega)
        _ = (2 ^ (f.precision - 1) : ℕ) * 2 ^ t := Format.Nearest.two_zpow_add_sub_one precise t
        _ ≤ q * 2 ^ t := mul_le_mul_of_nonneg_right
          (by exact_mod_cast nearest.two_pow_le precise spaced) spacing.le
    · obtain impossible | ⟨m', e', same, normal⟩ := normal
      · cases impossible
      · cases same
        exact .inr ⟨_, _, rfl, normal, rfl⟩

namespace Rounds

theorem eq_infinite_iff (rounds : Rounds f negative v r) (precise : 0 < f.precision)
    (ranged : 2 ≤ f.maxExponent) : r = .infinite negative ↔ f.infiniteFrom ≤ v := by
  obtain ⟨q, t, nearest, ⟨rfl, beyond⟩ | ⟨m, e, rfl, normal, same⟩⟩ := rounds
  · exact iff_of_true rfl ((nearest.two_zpow_le_iff precise ranged).mp beyond)
  · refine iff_of_false Binary.noConfusion fun high => ?_
    have beyond := (nearest.two_zpow_le_iff precise ranged).mpr high
    have bits : (m : ℝ) < (2 ^ f.precision : ℕ) := by exact_mod_cast normal.bits
    have below : (m : ℝ) * 2 ^ e < 2 ^ (f.maxExponent : ℤ) := by
      calc (m : ℝ) * 2 ^ e < (2 ^ f.precision : ℕ) * 2 ^ e :=
            mul_lt_mul_of_pos_right bits (two_zpow_pos e)
        _ = 2 ^ (e + f.precision) := (Format.Nearest.two_zpow_add e).symm
        _ ≤ 2 ^ (f.maxExponent : ℤ) := two_zpow_le normal.inRange
    linarith

theorem eq_finite (rounds : Rounds f negative v r) (precise : 0 < f.precision)
    (ranged : 2 ≤ f.maxExponent) (inRange : v < f.infiniteFrom) :
    ∃ q t m e, f.Nearest v q t ∧ r = .finite negative m e ∧ f.Normal m e ∧
      (m : ℝ) * 2 ^ e = q * 2 ^ t := by
  have finite := mt (rounds.eq_infinite_iff precise ranged).mp (not_le_of_gt inRange)
  obtain ⟨q, t, nearest, ⟨infinite, -⟩ | ⟨m, e, same, normal, value⟩⟩ := rounds
  · exact absurd infinite finite
  · exact ⟨q, t, m, e, nearest, same, normal, value⟩

theorem isZero_iff (rounds : Rounds f negative v r) (precise : 0 < f.precision)
    (ranged : 2 ≤ f.maxExponent) (nonneg : 0 ≤ v) : r.isZero = true ↔ v ≤ f.zeroUpTo := by
  rcases lt_or_ge v f.infiniteFrom with inRange | high
  · obtain ⟨q, t, m, e, nearest, rfl, normal, same⟩ := rounds.eq_finite precise ranged inRange
    rw [← nearest.eq_zero_iff precise nonneg, isZero, beq_iff_eq]
    have unit := two_zpow_pos e
    have spacing := two_zpow_pos t
    constructor
    · rintro rfl
      rw [Nat.cast_zero, zero_mul, eq_comm, mul_eq_zero] at same
      exact_mod_cast same.resolve_right spacing.ne'
    · rintro rfl
      rw [Nat.cast_zero, zero_mul, mul_eq_zero] at same
      exact_mod_cast same.resolve_right unit.ne'
  · obtain rfl := (rounds.eq_infinite_iff precise ranged).mpr high
    exact iff_of_false Bool.false_ne_true
      (not_le_of_gt ((f.zeroUpTo_lt_infiniteFrom precise ranged).trans_le high))

end Rounds

/-! ## Quotients -/

/-- A quotient taken with more bits than the format has stands for the exact one. -/
theorem stands_div (m₁ : ℕ) {m₂ : ℕ} (positive : m₂ ≠ 0) (e : ℤ) :
    let shift := f.precision + 3 + m₂.log2 - m₁.log2
    Stands f (m₁ <<< shift / m₂) (e - shift) (m₁ <<< shift % m₂ != 0) (m₁ / m₂ * 2 ^ e) := by
  intro shift
  have scale : (m₁ : ℝ) / m₂ * 2 ^ e = (m₁ <<< shift : ℕ) / m₂ * 2 ^ (e - shift) := by
    rw [two_zpow_split (e - shift) e, sub_sub_cancel, zpow_natCast, Nat.shiftLeft_eq]
    push_cast
    ring
  have unit := two_zpow_pos (e - shift)
  have divisor : (0 : ℝ) < m₂ := by exact_mod_cast Nat.pos_of_ne_zero positive
  have wide (between : (m₁ <<< shift % m₂ != 0) = true) :
      f.precision ≤ (m₁ <<< shift / m₂).log2 := by
    have nonzero : m₁ ≠ 0 := by
      rintro rfl
      simp at between
    have below : m₂ < 2 ^ (m₂.log2 + 1) := Nat.lt_log2_self
    have above : 2 ^ m₁.log2 ≤ m₁ := Nat.log2_self_le nonzero
    have many : 2 ^ f.precision ≤ m₁ <<< shift / m₂ := by
      rw [Nat.le_div_iff_mul_le (Nat.pos_of_ne_zero positive), Nat.shiftLeft_eq]
      calc 2 ^ f.precision * m₂ ≤ 2 ^ f.precision * 2 ^ (m₂.log2 + 1) :=
            Nat.mul_le_mul_left _ below.le
        _ = 2 ^ (f.precision + m₂.log2 + 1) := by rw [← Nat.pow_add, Nat.add_assoc]
        _ ≤ 2 ^ (m₁.log2 + shift) := Nat.pow_le_pow_right (by decide) (by omega)
        _ = 2 ^ m₁.log2 * 2 ^ shift := Nat.pow_add _ _ _
        _ ≤ m₁ * 2 ^ shift := Nat.mul_le_mul_right _ above
    exact (Nat.le_log2 (Nat.ne_of_gt ((Nat.two_pow_pos _).trans_le many))).mpr many
  rw [scale]
  generalize m₁ <<< shift = n at *
  have parts : (n : ℝ) = m₂ * (n / m₂ : ℕ) + (n % m₂ : ℕ) := by
    exact_mod_cast (Nat.div_add_mod n m₂).symm
  refine ⟨fun whole => ?_, fun between => ?_, fun _ => ?_, wide⟩
  · have none : n % m₂ = 0 := by simpa using whole
    rw [none, Nat.cast_zero, add_zero] at parts
    rw [parts, mul_div_cancel_left₀ _ divisor.ne']
  · have some : (0 : ℝ) < (n % m₂ : ℕ) := by
      exact_mod_cast Nat.pos_of_ne_zero (by simpa using between)
    refine mul_lt_mul_of_pos_right ?_ unit
    rw [lt_div_iff₀ divisor]
    linarith
  · have less : ((n % m₂ : ℕ) : ℝ) < m₂ := by
      exact_mod_cast Nat.mod_lt n (Nat.pos_of_ne_zero positive)
    refine mul_lt_mul_of_pos_right ?_ unit
    rw [div_lt_iff₀ divisor]
    linarith

theorem rounds_ofRatio (precise : 0 < f.precision) (ranged : 2 ≤ f.maxExponent) {num den : ℕ}
    (positive : den ≠ 0) :
    Rounds f negative (num / den) (ofRatio f negative num den) := by
  have stands := stands_div (f := f) num positive 0
  simp only [zpow_zero, mul_one, zero_sub] at stands
  exact rounds_round precise ranged stands

theorem rounds_ofInt (precise : 0 < f.precision) (ranged : 2 ≤ f.maxExponent) (i : ℤ) :
    Rounds f (i < 0) |(i : ℝ)| (ofInt f i) := by
  refine rounds_round precise ranged ⟨fun _ => ?_, nofun, nofun, nofun⟩
  rw [zpow_zero, mul_one, Nat.cast_natAbs, Int.cast_abs]

theorem rounds_convert (precise : 0 < f.precision) (ranged : 2 ≤ f.maxExponent) (m : ℕ) (e : ℤ) :
    Rounds f negative (m * 2 ^ e) ((Binary.finite negative m e).convert f) :=
  rounds_round precise ranged ⟨fun _ => rfl, nofun, nofun, nofun⟩

end Binary

end ProxGrad
