import ProxGrad.Proofs.RoundedArithmetic

/-!
# Rounded momentum

The momentum of the accelerated method in a binary format. In a format whose range reaches beyond
the squares of its precision it never leaves the numbers from one to half the power of two at which
the spacing becomes two: there one and the root add up to that power again. The weights stay below
one, since a momentum loses at most one half in a step.
-/

set_option autoImplicit false

namespace ProxGrad

/-- A format in which the numbers with spacing one have squares far inside the range. -/
structure Format.Wide (f : Format) : Prop where
  precise : 2 < f.precision
  ranged : 2 * f.precision + 2 ≤ f.maxExponent

theorem Format.Wide.proper {f : Format} (wide : f.Wide) : f.Proper :=
  ⟨Nat.lt_of_succ_lt wide.precise, by have := wide.ranged; omega⟩

namespace Binary

variable {f : Format} {t : Binary} {x v u : ℝ} {m : ℕ} {e : ℤ}

/-- The momentum after another, each operation rounded. -/
def nextMomentum (f : Format) (t : Binary) : Binary :=
  let square := mul f t t
  let root := sqrt f (add f (ofInt f 1) (mul f (ofInt f 4) square))
  div f (add f (ofInt f 1) root) (ofInt f 2)

/-- The weight of an extrapolation that goes on with the next momentum. -/
def weight (f : Format) (t next : Binary) : Binary :=
  div f (sub f t (ofInt f 1)) next

/-! ## Small numbers -/

theorem represents_two_zpow {k : ℤ} (least : f.minExponent ≤ k) : f.Represents (2 ^ k) :=
  ⟨1, k, Nat.one_le_two_pow, least, by rw [Nat.cast_one, one_mul]⟩

section

variable (wide : f.Wide)

include wide

theorem minExponent_le : f.minExponent + 2 * f.precision ≤ -2 := by
  have := wide.precise
  have := wide.ranged
  rw [Format.minExponent]
  omega

theorem represents_natCast {i : ℕ} (small : i ≤ 2 ^ f.precision) : f.Represents i := by
  refine ⟨i, 0, small, ?_, by rw [zpow_zero, mul_one]⟩
  have := minExponent_le wide
  omega

theorem lt_infiniteFrom (le : v ≤ 2 ^ (2 * f.precision) + 1) : v < f.infiniteFrom := by
  have precise := wide.precise
  have ranged := wide.ranged
  refine lt_of_lt_of_le ?_ (f.two_zpow_le_infiniteFrom (by omega))
  have one : (1 : ℝ) < 2 ^ (2 * f.precision) := one_lt_pow₀ one_lt_two (by omega)
  have reach : (2 : ℝ) ^ ((2 * f.precision + 1 : ℕ) : ℤ) ≤ 2 ^ ((f.maxExponent : ℤ) - 1) :=
    two_zpow_le (by omega)
  rw [zpow_natCast, pow_succ] at reach
  linarith

theorem four_le : 4 ≤ 2 ^ f.precision := by
  have precise := wide.precise
  calc 4 = 2 ^ 2 := rfl
    _ ≤ 2 ^ f.precision := Nat.pow_le_pow_right (by decide) (by omega)

/-- Small integers are numbers of the format. -/
theorem is_ofInt {i : ℕ} (small : i ≤ 4) : Is f (ofInt f i) i := by
  have fits := small.trans (four_le wide)
  have rounds := rounds_ofInt wide.proper.precise.le wide.proper.ranged (i : ℤ)
  have sign : decide ((i : ℤ) < 0) = false := by simp
  rw [sign, Int.cast_natCast, abs_of_nonneg (Nat.cast_nonneg i)] at rounds
  have few : (i : ℝ) ≤ 2 ^ (2 * f.precision) + 1 := by
    have bits : (i : ℝ) ≤ 2 ^ f.precision := by exact_mod_cast fits
    have more : (2 : ℝ) ^ f.precision ≤ 2 ^ (2 * f.precision) :=
      pow_le_pow_right₀ one_le_two (by omega)
    linarith
  obtain ⟨u, is, near⟩ := rounds.exists_is wide.proper (lt_infiniteFrom wide few)
  rwa [near.eq wide.proper (represents_natCast wide fits)] at is

end

/-! ## Numbers with spacing at most one -/

section

variable (normal : f.Normal m e) (wide : f.Wide) (one_le : 1 ≤ (m : ℝ) * 2 ^ e)
  (le : (m : ℝ) * 2 ^ e ≤ 2 ^ (f.precision - 1))

include normal wide le

theorem exponent_le_zero : e ≤ 0 := by
  have low := minExponent_le wide
  obtain least | full := normal.full
  · omega
  · by_contra positive
    obtain ⟨p, split⟩ : ∃ p, f.precision = p + 1 := ⟨f.precision - 1, by have := wide.precise; omega⟩
    rw [split, Nat.pow_succ'] at full
    rw [split, Nat.add_sub_cancel] at le
    have bits : ((2 ^ p : ℕ) : ℝ) ≤ m := by exact_mod_cast Nat.le_of_mul_le_mul_left full two_pos
    have double : (2 : ℝ) ^ (1 : ℤ) ≤ 2 ^ e := two_zpow_le (by omega)
    have power : (0 : ℝ) < 2 ^ p := by positivity
    rw [zpow_one] at double
    push_cast at bits
    nlinarith

include one_le

/-- One less than a number with spacing at most one, twice that, and the number between this and
twice the number. -/
theorem represents_sub_one :
    f.Represents ((m : ℝ) * 2 ^ e - 1) ∧ f.Represents (2 * ((m : ℝ) * 2 ^ e) - 2) ∧
      f.Represents (2 * ((m : ℝ) * 2 ^ e) - 1) := by
  obtain ⟨k, rfl⟩ : ∃ k : ℕ, e = -k :=
    ⟨(-e).toNat, by have := exponent_le_zero normal wide le; omega⟩
  have unit : (2 : ℝ) ^ (-k : ℤ) * (2 ^ k : ℕ) = 1 := by
    rw [zpow_neg, zpow_natCast, Nat.cast_pow, Nat.cast_two, inv_mul_cancel₀ (by positivity)]
  have spacing := two_zpow_pos (-k : ℤ)
  have bits := normal.bits
  have least := normal.least
  have enough : 2 ^ k ≤ m := by
    have scaled : (2 : ℝ) ^ (-k : ℤ) * (2 ^ k : ℕ) ≤ 2 ^ (-k : ℤ) * m := by
      rw [unit, mul_comm]
      exact one_le
    exact_mod_cast le_of_mul_le_mul_left scaled spacing
  have double : (2 : ℝ) ^ (-k + 1 : ℤ) = 2 * 2 ^ (-k : ℤ) := by
    rw [zpow_add_one₀ two_ne_zero, mul_comm]
  have fewer := (Nat.sub_le m (2 ^ k)).trans bits.le
  refine ⟨⟨m - 2 ^ k, -k, fewer, least, ?_⟩, ⟨m - 2 ^ k, -k + 1, fewer, by omega, ?_⟩, ?_⟩
  · rw [Nat.cast_sub enough]
    linarith
  · rw [Nat.cast_sub enough, double]
    linarith
  · cases k with
    | zero =>
      have few : m ≤ 2 ^ (f.precision - 1) := by
        rw [Nat.cast_zero, neg_zero, zpow_zero, mul_one] at le
        exact_mod_cast le
      obtain ⟨p, split⟩ : ∃ p, f.precision = p + 1 :=
        ⟨f.precision - 1, by have := wide.precise; omega⟩
      rw [split, Nat.add_sub_cancel] at few
      refine ⟨2 * m - 1, 0, by rw [split, Nat.pow_succ']; omega, by simpa using least, ?_⟩
      rw [Nat.cast_sub (by omega)]
      push_cast
      simp
    | succ k =>
      have half : 2 ^ (k + 1) = 2 * 2 ^ k := Nat.pow_succ'
      refine ⟨m - 2 ^ k, -(k + 1 : ℕ) + 1, by omega, by omega, ?_⟩
      rw [half] at unit
      rw [Nat.cast_sub (by omega), double]
      push_cast at unit ⊢
      linarith

end

/-! ## One step -/

section

variable (wide : f.Wide)

include wide

/-- The bound of the momentum: half of the power of two from which on the spacing is two. -/
theorem two_pow_eq_double : (2 : ℝ) ^ f.precision = 2 * 2 ^ (f.precision - 1) := by
  rw [← pow_succ', Nat.sub_add_cancel (Nat.one_le_of_lt wide.precise)]

theorem two_pow_two_mul : (2 : ℝ) ^ (2 * f.precision) = 4 * (2 ^ (f.precision - 1)) ^ 2 := by
  rw [mul_comm 2, pow_mul, two_pow_eq_double wide]
  ring

theorem exists_is_square (is : Is f t x) (one_le : 1 ≤ x) (le : x ≤ 2 ^ (f.precision - 1)) :
    ∃ s, Is f (mul f t t) s ∧ 1 ≤ s ∧ s ≤ (2 ^ (f.precision - 1)) ^ 2 ∧ x ^ 2 - x / 2 ≤ s := by
  have low := minExponent_le wide
  have few : x * x ≤ (2 ^ (f.precision - 1)) ^ 2 := by nlinarith
  have bound : x * x < f.infiniteFrom := by
    refine lt_infiniteFrom wide ?_
    rw [two_pow_two_mul wide]
    nlinarith
  obtain ⟨s, is', rounds⟩ := (rounds_mul wide.proper is is).exists_is wide.proper bound
  refine ⟨s, is', ?_, ?_, ?_⟩
  · have one := represents_two_zpow (f := f) (k := 0) (by omega)
    rw [zpow_zero] at one
    exact rounds.ge wide.proper one (by nlinarith)
  · have top := represents_two_zpow (f := f) (k := (2 * (f.precision - 1) : ℕ)) (by omega)
    rw [zpow_natCast, mul_comm 2, pow_mul] at top
    exact rounds.le wide.proper top few
  · have normal : (2 : ℝ) ^ (f.minExponent + f.precision - 1) ≤ x * x := by
      refine (two_zpow_le (b := 0) (by omega)).trans ?_
      rw [zpow_zero]
      nlinarith
    have error := (neg_le_abs _).trans (rounds.near_relative normal)
    have relative : x * x / 2 ^ f.precision ≤ x / 2 := by
      rw [two_pow_eq_double wide, div_le_div_iff₀ (by positivity) two_pos]
      nlinarith
    nlinarith

theorem exists_is_radicand {a : Binary} {s : ℝ} (is : Is f a s) (one_le : 1 ≤ s)
    (le : s ≤ (2 ^ (f.precision - 1)) ^ 2) :
    ∃ u, Is f (add f (ofInt f 1) (mul f (ofInt f 4) a)) u ∧ 4 * s ≤ u ∧
      u ≤ 2 ^ (2 * f.precision) := by
  have four : f.Represents (4 * s) := by
    obtain ⟨m, e, -, normal, rfl⟩ := is
    refine ⟨m, e + 2, normal.bits.le, by have := normal.least; omega, ?_⟩
    rw [zpow_add₀ two_ne_zero]
    ring
  have bound : 4 * s ≤ 2 ^ (2 * f.precision) := by
    rw [two_pow_two_mul wide]
    linarith
  obtain ⟨c, scaled, near⟩ := (rounds_mul wide.proper (is_ofInt wide (i := 4) le_rfl) is).exists_is
    wide.proper (lt_infiniteFrom wide (by push_cast; linarith))
  obtain rfl : c = 4 * s := near.eq wide.proper four
  obtain ⟨u, is', rounds⟩ := (rounds_add wide.proper (is_ofInt wide (i := 1) (by decide))
    scaled).exists_is wide.proper (lt_infiniteFrom wide (by push_cast; linarith))
  rw [Nat.cast_one] at rounds
  refine ⟨u, is', rounds.ge wide.proper four (by linarith), ?_⟩
  have low := minExponent_le wide
  have top := rounds.le_two_zpow (k := (2 * f.precision : ℕ)) wide.proper (by omega) (by
    have gap : (2 : ℝ) ^ (0 : ℤ) ≤ 2 ^ (((2 * f.precision : ℕ) : ℤ) - f.precision) :=
      two_zpow_le (by omega)
    rw [zpow_zero] at gap
    rw [zpow_natCast]
    linarith)
  rwa [zpow_natCast] at top

theorem exists_is_root {b : Binary} {u : ℝ} (is : Is f b u) (four_le : 4 ≤ u)
    (le : u ≤ 2 ^ (2 * f.precision)) :
    ∃ r, Is f (sqrt f b) r ∧ 2 ≤ r ∧ r ≤ 2 ^ f.precision ∧
      ∀ y, f.Represents y → y ^ 2 ≤ u → y ≤ r := by
  have low := minExponent_le wide
  have few : √u ≤ 2 ^ f.precision := by
    rw [Real.sqrt_le_left (by positivity), ← pow_mul, mul_comm]
    exact le
  have bound : √u < f.infiniteFrom := by
    refine lt_infiniteFrom wide (few.trans ?_)
    have more : (2 : ℝ) ^ f.precision ≤ 2 ^ (2 * f.precision) :=
      pow_le_pow_right₀ one_le_two (by omega)
    linarith
  obtain ⟨r, is', rounds⟩ := (rounds_sqrt wide.proper is).exists_is wide.proper bound
  have below (y : ℝ) (represents : f.Represents y) (square : y ^ 2 ≤ u) : y ≤ r :=
    rounds.ge wide.proper represents (Real.le_sqrt_of_sq_le square)
  refine ⟨r, is', below 2 ?_ (by linarith), ?_, below⟩
  · have two := represents_two_zpow (f := f) (k := 1) (by omega)
    rwa [zpow_one] at two
  · have top := represents_two_zpow (f := f) (k := (f.precision : ℤ)) (by omega)
    rw [zpow_natCast] at top
    exact rounds.le wide.proper top few

/-- One and a root at the bound add up to the bound again: the sum is a tie, and the even one of its
neighbours is below. -/
theorem exists_is_mean {c : Binary} {r : ℝ} (is : Is f c r) (two_le : 2 ≤ r)
    (le : r ≤ 2 ^ f.precision) :
    ∃ y, Is f (div f (add f (ofInt f 1) c) (ofInt f 2)) y ∧ 1 ≤ y ∧
      y ≤ 2 ^ (f.precision - 1) ∧ ∀ z, f.Represents z → z ≤ 1 + r → z ≤ 2 * y := by
  have low := minExponent_le wide
  have more : (2 : ℝ) ^ f.precision ≤ 2 ^ (2 * f.precision) :=
    pow_le_pow_right₀ one_le_two (by omega)
  obtain ⟨w, total, rounds⟩ := (rounds_add wide.proper (is_ofInt wide (i := 1) (by decide))
    is).exists_is wide.proper (lt_infiniteFrom wide (by push_cast; linarith))
  rw [Nat.cast_one] at rounds
  have two := represents_two_zpow (f := f) (k := 1) (by omega)
  rw [zpow_one] at two
  have least : 2 ≤ w := rounds.ge wide.proper two (by linarith)
  have most : w ≤ 2 ^ f.precision := by
    have top := rounds.le_two_zpow (k := (f.precision : ℤ)) wide.proper (by omega) (by
      rw [sub_self, zpow_zero, zpow_natCast]
      linarith)
    rwa [zpow_natCast] at top
  have half : f.Represents (w / 2) := by
    obtain ⟨m, e, -, normal, rfl⟩ := total
    refine ⟨m, e - 1, normal.bits.le, ?_, ?_⟩
    · by_contra deep
      have bits : (m : ℝ) ≤ 2 ^ (f.precision : ℤ) := by
        rw [zpow_natCast]
        exact_mod_cast normal.bits.le
      have small : (m : ℝ) * 2 ^ e ≤ 2 ^ ((f.precision : ℤ) + e) := by
        rw [zpow_add₀ two_ne_zero]
        exact mul_le_mul_of_nonneg_right bits (two_zpow_pos e).le
      have tiny : (2 : ℝ) ^ ((f.precision : ℤ) + e) ≤ 2 ^ (0 : ℤ) := two_zpow_le (by omega)
      rw [zpow_zero] at tiny
      linarith
    · rw [zpow_sub_one₀ two_ne_zero]
      ring
  obtain ⟨y, is', near⟩ := (rounds_div wide.proper total (is_ofInt wide (i := 2) (by decide))
    (by norm_num)).exists_is wide.proper (lt_infiniteFrom wide (by push_cast; linarith))
  rw [Nat.cast_two] at near
  obtain rfl : y = w / 2 := near.eq wide.proper half
  refine ⟨w / 2, is', by linarith, ?_, fun z represents le => ?_⟩
  · rw [two_pow_eq_double wide] at most
    linarith
  · have above := rounds.ge wide.proper represents le
    linarith

end

/-- The momentum after a number from one to the bound is such a number again, and less by at most
one half. -/
theorem exists_is_nextMomentum (wide : f.Wide) (is : Is f t x) (one_le : 1 ≤ x)
    (le : x ≤ 2 ^ (f.precision - 1)) :
    ∃ y, Is f (nextMomentum f t) y ∧ 1 ≤ y ∧ y ≤ 2 ^ (f.precision - 1) ∧ x - 1 / 2 ≤ y := by
  obtain ⟨-, twice, between⟩ : f.Represents (x - 1) ∧ f.Represents (2 * x - 2) ∧
      f.Represents (2 * x - 1) := by
    obtain ⟨m, e, -, normal, rfl⟩ := is
    exact represents_sub_one normal wide one_le le
  obtain ⟨s, square, least, most, close⟩ := exists_is_square wide is one_le le
  obtain ⟨u, radicand, above, bound⟩ := exists_is_radicand wide square least most
  obtain ⟨r, root, two_le, bound', below⟩ := exists_is_root wide radicand (by linarith) bound
  obtain ⟨y, mean, least', most', below'⟩ := exists_is_mean wide root two_le bound'
  refine ⟨y, mean, least', most', ?_⟩
  have large : 2 * x - 2 ≤ r := below _ twice (by nlinarith)
  have larger := below' _ between (by linarith)
  linarith

/-- The weight between such numbers is a number that is less than one. -/
theorem exists_is_weight (wide : f.Wide) (is : Is f t x) (one_le : 1 ≤ x)
    (le : x ≤ 2 ^ (f.precision - 1)) {next : Binary} {y : ℝ} (is' : Is f next y)
    (one_le' : 1 ≤ y) (close : x - 1 / 2 ≤ y) :
    ∃ z, Is f (weight f t next) z ∧ z < 1 := by
  have low := minExponent_le wide
  have less : f.Represents (x - 1) := by
    obtain ⟨m, e, -, normal, rfl⟩ := is
    exact (represents_sub_one normal wide one_le le).1
  have power : (1 : ℝ) ≤ 2 ^ (f.precision - 1) := one_le_pow₀ one_le_two
  have square : (2 : ℝ) ^ (f.precision - 1) ≤ 2 ^ (2 * f.precision) :=
    pow_le_pow_right₀ one_le_two (by omega)
  obtain ⟨d, lowered, near⟩ := (rounds_sub wide.proper is (is_ofInt wide (i := 1) (by decide))
    (by push_cast; linarith)).exists_is wide.proper
      (lt_infiniteFrom wide (by push_cast; linarith))
  rw [Nat.cast_one] at near
  obtain rfl : d = x - 1 := near.eq wide.proper less
  have quotient : (x - 1) / y ≤ 1 - 1 / 2 ^ f.precision := by
    rw [div_le_iff₀ (by linarith), two_pow_eq_double wide]
    have small : y / (2 * 2 ^ (f.precision - 1)) ≤ y - (x - 1) := by
      rw [div_le_iff₀ (by positivity)]
      nlinarith
    linarith [mul_one_div y ((2 : ℝ) * 2 ^ (f.precision - 1))]
  have last : f.Represents (1 - 1 / 2 ^ f.precision) := by
    refine ⟨2 ^ f.precision - 1, -f.precision, Nat.sub_le _ _, by omega, ?_⟩
    rw [Nat.cast_sub Nat.one_le_two_pow, zpow_neg, zpow_natCast]
    push_cast
    field_simp
  have gap : (0 : ℝ) < 1 / 2 ^ f.precision := by positivity
  obtain ⟨z, divided, rounds⟩ := (rounds_div wide.proper lowered is' (by linarith)).exists_is
    wide.proper (lt_infiniteFrom wide (by linarith))
  exact ⟨z, divided, (rounds.le wide.proper last quotient).trans_lt (by linarith)⟩

end Binary

end ProxGrad
