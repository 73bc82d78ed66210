import Mathlib.Algebra.Order.Ring.Int
import Mathlib.Tactic.SplitIfs
import ProxGrad.Binary.Basic

/-!
# Rounding

A rounded number is infinite or in the normal form of its format, and rounding leaves a number in
normal form as it is. Integers round to infinities from the middle between the largest number of the
format and the power of two beyond it.
-/

set_option autoImplicit false

namespace ProxGrad

/-! ## Shifts -/

namespace Binary

variable {m k p : Nat}

theorem roundShift_eq (m k : Nat) (inexact : Bool) :
    roundShift m k inexact =
      if 2 ^ k < 2 * (m % 2 ^ k) ∨ 2 ^ k = 2 * (m % 2 ^ k) ∧ (inexact = true ∨ m / 2 ^ k % 2 = 1)
      then m / 2 ^ k + 1 else m / 2 ^ k := by
  have remainder : m - (m / 2 ^ k) <<< k = m % 2 ^ k := by
    rw [Nat.shiftLeft_eq, Nat.mod_def, Nat.mul_comm]
  simp only [roundShift, Nat.shiftRight_eq_div_pow, Nat.one_shiftLeft, remainder]
  simp

theorem div_le_roundShift (m k : Nat) (inexact : Bool) : m / 2 ^ k ≤ roundShift m k inexact := by
  rw [roundShift_eq]
  split_ifs <;> omega

theorem roundShift_le (inexact : Bool) (bits : m < 2 ^ (p + k)) :
    roundShift m k inexact ≤ 2 ^ p := by
  have quotient : m / 2 ^ k < 2 ^ p := by
    rw [Nat.div_lt_iff_lt_mul (Nat.two_pow_pos k), ← Nat.pow_add]
    exact bits
  rw [roundShift_eq]
  split_ifs <;> omega

/-- A number of `p + k` bits rounds up to a power of two from half a unit below it. -/
theorem roundShift_eq_pow_iff (precise : 0 < p) (bits : m < 2 ^ (p + (k + 1))) :
    roundShift m (k + 1) false = 2 ^ p ↔ 2 ^ (p + (k + 1)) ≤ m + 2 ^ k := by
  have unit : 2 ^ (k + 1) = 2 * 2 ^ k := Nat.pow_succ'
  have even : 2 ^ p % 2 = 0 := by
    obtain ⟨q, rfl⟩ := Nat.exists_eq_succ_of_ne_zero precise.ne'
    rw [Nat.pow_succ, Nat.mul_mod_left]
  have positive := Nat.two_pow_pos p
  have quotient : m / 2 ^ (k + 1) < 2 ^ p := by
    rw [Nat.div_lt_iff_lt_mul (Nat.two_pow_pos _), ← Nat.pow_add]
    exact bits
  have inside := Nat.mod_lt m (Nat.two_pow_pos (k + 1))
  have parts := Nat.div_add_mod m (2 ^ (k + 1))
  rw [roundShift_eq, Nat.pow_add 2 p]
  generalize m / 2 ^ (k + 1) = c at *
  generalize m % 2 ^ (k + 1) = r at *
  rw [unit] at *
  by_cases last : c + 1 = 2 ^ p
  · have whole : 2 ^ p * (2 * 2 ^ k) = 2 * 2 ^ k * c + 2 * 2 ^ k := by
      rw [← last, Nat.add_mul, Nat.mul_comm c, Nat.one_mul]
    have odd : c % 2 = 1 := by omega
    rw [whole, odd]
    split_ifs <;> omega
  · have below : 2 * 2 ^ k * (c + 2) ≤ 2 ^ p * (2 * 2 ^ k) := by
      rw [Nat.mul_comm]
      exact Nat.mul_le_mul_right _ (by omega)
    rw [Nat.mul_add] at below
    split_ifs <;> omega

end Binary

/-! ## Normal forms -/

/-- The finite numbers of a format in the one form in which each is rounded to: with all bits, or
with the least exponent. -/
structure Format.Normal (f : Format) (significand : Nat) (exponent : Int) : Prop where
  bits : significand < 2 ^ f.precision
  least : f.minExponent ≤ exponent
  inRange : exponent + f.precision ≤ f.maxExponent
  full : exponent = f.minExponent ∨ 2 ^ f.precision ≤ 2 * significand

namespace Binary

variable {f : Format} {negative inexact : Bool} {m : Nat} {e : Int}

/-- The significand in units of `2 ^ target`. -/
def inUnits (m : Nat) (e target : Int) (inexact : Bool) : Nat :=
  if target ≤ e then m <<< (e - target).toNat else roundShift m (target - e).toNat inexact

/-- Rounding places the leading bit, and the least exponent bounds that. A significand that rounds
up to a bit more is halved. -/
theorem round_eq {q : Nat} {target : Int} (nonzero : m ≠ 0)
    (placed : max (e + m.log2 + 1 - f.precision) f.minExponent = target)
    (scaled : inUnits m e target inexact = q) :
    round f negative m e inexact =
      if q = 2 ^ f.precision then
        if f.maxExponent < target + 1 + f.precision then .infinite negative
        else .finite negative (q / 2) (target + 1)
      else if f.maxExponent < target + f.precision then .infinite negative
      else .finite negative q target := by
  have power : Nat.pow 2 f.precision = 2 ^ f.precision := rfl
  unfold round
  rw [if_neg nonzero, placed]
  unfold inUnits at scaled
  dsimp only
  rw [scaled, power]
  by_cases carry : q = 2 ^ f.precision
  · simp only [if_pos carry]
  · simp only [if_neg carry]

theorem inUnits_le {p : Nat} {target : Int} (bits : e + m.log2 + 1 - p ≤ target) :
    inUnits m e target inexact ≤ 2 ^ p := by
  have above : m < 2 ^ (m.log2 + 1) := Nat.lt_log2_self
  unfold inUnits
  split_ifs with left
  · rw [Nat.shiftLeft_eq]
    have shifted : m * 2 ^ (e - target).toNat < 2 ^ (m.log2 + 1 + (e - target).toNat) := by
      rw [Nat.pow_add]
      exact Nat.mul_lt_mul_of_pos_right above (Nat.two_pow_pos _)
    exact shifted.le.trans (Nat.pow_le_pow_right (by decide) (by omega))
  · exact roundShift_le _ (above.trans_le (Nat.pow_le_pow_right (by decide) (by omega)))

theorem le_inUnits {p : Nat} {target : Int} (nonzero : m ≠ 0) (precise : 0 < p)
    (bits : target ≤ e + m.log2 + 1 - p) : 2 ^ p ≤ 2 * inUnits m e target inexact := by
  have below : 2 ^ m.log2 ≤ m := Nat.log2_self_le nonzero
  unfold inUnits
  split_ifs with left
  · rw [Nat.shiftLeft_eq]
    calc 2 ^ p ≤ 2 ^ (m.log2 + (e - target).toNat + 1) := Nat.pow_le_pow_right (by decide) (by omega)
      _ = 2 * (2 ^ m.log2 * 2 ^ (e - target).toNat) := by rw [Nat.pow_succ', Nat.pow_add]
      _ ≤ 2 * (m * 2 ^ (e - target).toNat) :=
        Nat.mul_le_mul_left 2 (Nat.mul_le_mul_right _ below)
  · generalize shift : (target - e).toNat = k
    have kept : 2 ^ (m.log2 - k) ≤ m / 2 ^ k := by
      rw [Nat.le_div_iff_mul_le (Nat.two_pow_pos k), ← Nat.pow_add]
      exact (Nat.pow_le_pow_right (by decide) (by omega)).trans below
    calc 2 ^ p ≤ 2 ^ (m.log2 - k + 1) := Nat.pow_le_pow_right (by decide) (by omega)
      _ = 2 * 2 ^ (m.log2 - k) := Nat.pow_succ'
      _ ≤ 2 * roundShift m k inexact :=
        Nat.mul_le_mul_left 2 (kept.trans (div_le_roundShift m k inexact))

theorem round_of_normal (normal : f.Normal m e) (precise : 0 < f.precision) :
    round f negative m e false = .finite negative m e := by
  by_cases zero : m = 0
  · rw [round, if_pos zero]
    obtain least | full := normal.full
    · rw [zero, least]
    · have positive := Nat.two_pow_pos f.precision
      omega
  · have below : m.log2 < f.precision := (Nat.log2_lt zero).mpr normal.bits
    have target : max (e + m.log2 + 1 - f.precision) f.minExponent = e := by
      have least := normal.least
      obtain least | full := normal.full
      · omega
      · have above : f.precision - 1 ≤ m.log2 := by
          rw [Nat.le_log2 zero]
          obtain ⟨p, same⟩ := Nat.exists_eq_succ_of_ne_zero precise.ne'
          rw [same, Nat.pow_succ] at full
          rw [same, Nat.succ_sub_one]
          omega
        omega
    have inRange := normal.inRange
    have kept : inUnits m e e false = m := by simp [inUnits]
    rw [round_eq zero target kept, if_neg normal.bits.ne, if_neg (by omega)]

theorem exists_round_normal (precise : 0 < f.precision) (ranged : 2 ≤ f.maxExponent)
    (negative : Bool) (m : Nat) (e : Int) (inexact : Bool) :
    round f negative m e inexact = .infinite negative ∨
      ∃ q t, round f negative m e inexact = .finite negative q t ∧ f.Normal q t := by
  by_cases zero : m = 0
  · refine .inr ⟨0, f.minExponent, if_pos zero, Nat.two_pow_pos _, le_rfl, ?_, .inl rfl⟩
    rw [Format.minExponent]
    omega
  · generalize placed : max (e + m.log2 + 1 - f.precision) f.minExponent = target
    generalize scaled : inUnits m e target inexact = q
    have atMost : q ≤ 2 ^ f.precision := by
      rw [← scaled]
      exact inUnits_le (by omega)
    have full : target = f.minExponent ∨ 2 ^ f.precision ≤ 2 * q := by
      by_cases least : target = f.minExponent
      · exact .inl least
      · rw [← scaled]
        exact .inr (le_inUnits zero precise (by omega))
    rw [round_eq zero placed scaled]
    split_ifs with carry beyond beyond
    · exact .inl rfl
    · obtain ⟨p, same⟩ := Nat.exists_eq_succ_of_ne_zero precise.ne'
      have double : 2 ^ f.precision = 2 * 2 ^ p := by rw [same, Nat.pow_succ']
      have positive := Nat.two_pow_pos p
      exact .inr ⟨_, _, rfl, by omega, by omega, by omega, .inr (by omega)⟩
    · exact .inl rfl
    · exact .inr ⟨_, _, rfl, by omega, by omega, by omega, full⟩

theorem convert_round (precise : 0 < f.precision) (ranged : 2 ≤ f.maxExponent) :
    (round f negative m e inexact).convert f = round f negative m e inexact := by
  obtain infinite | ⟨q, t, finite, normal⟩ :=
    exists_round_normal precise ranged negative m e inexact
  · rw [infinite]
    rfl
  · rw [finite]
    exact round_of_normal normal precise

/-! ## Integers -/

/-- An integer rounds to a finite number below the middle between the largest number of the format
and the power of two beyond it. -/
theorem isFinite_ofInt_iff (precise : 0 < f.precision) (ranged : f.precision < f.maxExponent)
    (i : Int) : (ofInt f i).isFinite = true ↔
      i.natAbs + 2 ^ (f.maxExponent - f.precision - 1) < 2 ^ f.maxExponent := by
  obtain ⟨k, apart⟩ : ∃ k, f.maxExponent = f.precision + (k + 1) :=
    ⟨f.maxExponent - f.precision - 1, by omega⟩
  have half : f.maxExponent - f.precision - 1 = k := by omega
  have room : 2 ^ k < 2 ^ (f.precision + k) := Nat.pow_lt_pow_right (by decide) (by omega)
  have double : 2 ^ f.maxExponent = 2 * 2 ^ (f.precision + k) := by
    rw [apart, ← Nat.pow_succ', Nat.succ_eq_add_one, Nat.add_assoc]
  rw [half, ofInt]
  generalize i.natAbs = m
  by_cases zero : m = 0
  · rw [round, if_pos zero]
    exact iff_of_true rfl (by omega)
  · have above : m < 2 ^ (m.log2 + 1) := Nat.lt_log2_self
    have below : 2 ^ m.log2 ≤ m := Nat.log2_self_le zero
    generalize placed : max (0 + m.log2 + 1 - f.precision : Int) f.minExponent = target
    generalize scaled : inUnits m 0 target false = q
    rw [Format.minExponent] at placed
    rw [round_eq zero placed scaled]
    -- Only a number with as many bits as the range has may go either way, by the carry.
    rcases Nat.lt_trichotomy (m.log2 + 1) f.maxExponent with fewer | all | more
    · have small : m < 2 ^ (f.precision + k) :=
        above.trans_le (Nat.pow_le_pow_right (by decide) (by omega))
      refine iff_of_true ?_ (by omega)
      split_ifs with carry beyond beyond
      · omega
      · rfl
      · omega
      · rfl
    · have shift : target = (k + 1 : Nat) := by omega
      have bits : m < 2 ^ (f.precision + (k + 1)) := by rwa [← apart, ← all]
      have carried : q = 2 ^ f.precision ↔ 2 ^ (f.precision + (k + 1)) ≤ m + 2 ^ k := by
        rw [← scaled, shift, inUnits, if_neg (by omega), Int.sub_zero, Int.toNat_natCast]
        exact roundShift_eq_pow_iff precise bits
      rw [apart, ← Nat.not_le, ← carried]
      split_ifs with carry beyond beyond
      · exact iff_of_false Bool.false_ne_true (not_not_intro carry)
      · omega
      · omega
      · exact iff_of_true rfl carry
    · have large : 2 ^ f.maxExponent ≤ m :=
        (Nat.pow_le_pow_right (by decide) (by omega)).trans below
      refine iff_of_false ?_ (large.trans (Nat.le_add_right m (2 ^ k))).not_gt
      split_ifs with carry beyond beyond
      · exact Bool.false_ne_true
      · omega
      · exact Bool.false_ne_true
      · omega

/-- Integers of 64 bits are in the range of a format that reaches that far. -/
theorem isFinite_ofInt (precise : 0 < f.precision) (ranged : f.precision < f.maxExponent)
    (reaches : 65 ≤ f.maxExponent) {i : Int} (small : i.natAbs < 2 ^ 64) :
    (ofInt f i).isFinite = true := by
  obtain ⟨n, top⟩ : ∃ n, f.maxExponent = n + 1 := ⟨f.maxExponent - 1, by omega⟩
  have half : 2 ^ (n + 1 - f.precision - 1) ≤ 2 ^ n :=
    Nat.pow_le_pow_right (by decide) (by omega)
  have wide : 2 ^ 64 ≤ 2 ^ n := Nat.pow_le_pow_right (by decide) (by omega)
  rw [isFinite_ofInt_iff precise ranged, top, Nat.pow_succ]
  omega

theorem ofInt_of_pos (precise : 0 < f.precision) (ranged : f.precision < f.maxExponent) {i : Int}
    (positive : 0 < i) :
    ofInt f i = .infinite false ∨ ∃ q t, ofInt f i = .finite false q t ∧ q ≠ 0 := by
  have nonzero : i.natAbs ≠ 0 := by omega
  have sign : decide (i < 0) = false := by simpa using positive.le
  rw [ofInt, sign]
  generalize i.natAbs = m at nonzero
  generalize placed : max (0 + m.log2 + 1 - f.precision : Int) f.minExponent = target
  generalize scaled : inUnits m 0 target false = q
  have kept : q ≠ 0 := by
    rw [← scaled]
    rw [Format.minExponent] at placed
    by_cases left : target ≤ 0
    · rw [inUnits, if_pos left, Nat.shiftLeft_eq]
      exact Nat.mul_ne_zero nonzero (Nat.two_pow_pos _).ne'
    · have full : 2 ^ f.precision ≤ 2 * inUnits m 0 target false :=
        le_inUnits nonzero precise (by omega)
      have bits := Nat.two_pow_pos f.precision
      omega
  have whole : 2 ^ 1 ≤ 2 ^ f.precision := Nat.pow_le_pow_right (by decide) precise
  rw [round_eq nonzero placed scaled]
  split_ifs with carry beyond beyond
  · exact .inl rfl
  · exact .inr ⟨_, _, rfl, by omega⟩
  · exact .inl rfl
  · exact .inr ⟨_, _, rfl, kept⟩

end Binary

end ProxGrad
