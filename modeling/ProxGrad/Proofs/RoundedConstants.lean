import ProxGrad.Proofs.Options.Constants
import ProxGrad.Proofs.RoundedNumbers

/-!
# Constants in a real element type

An accepted constant is a positive number in the format in which it was given. In the real type of
an array it may be none: it is an infinity from one bound on, and zero up to another. That integers
are read through a second format moves neither bound.
-/

set_option autoImplicit false

namespace ProxGrad

namespace Binary

variable {f g : Format} {b r : Binary} {v u : ℝ} {i : ℕ}

/-- What a positive number comes to in a format. -/
inductive Becomes (f : Format) (v : ℝ) : Binary → Prop
  | infinity (high : f.infiniteFrom ≤ v) : Becomes f v (.infinite false)
  | zero {e : ℤ} (low : v ≤ f.zeroUpTo) : Becomes f v (.finite false 0 e)
  | number {m : ℕ} {e : ℤ} (low : f.zeroUpTo < v) (high : v < f.infiniteFrom)
      (positive : 0 < m) (normal : f.Normal m e) : Becomes f v (.finite false m e)

theorem Rounds.becomes (rounds : Rounds f false v b) (proper : f.Proper) (nonneg : 0 ≤ v) :
    Becomes f v b := by
  have zero := rounds.isZero_iff proper.precise.le proper.ranged nonneg
  rcases lt_or_ge v f.infiniteFrom with inRange | high
  · obtain ⟨_, _, m, e, -, rfl, normal, -⟩ :=
      rounds.eq_finite proper.precise.le proper.ranged inRange
    rw [isZero, beq_iff_eq] at zero
    rcases Nat.eq_zero_or_pos m with rfl | positive
    · exact .zero (zero.mp rfl)
    · exact .number (lt_of_not_ge (mt zero.mpr positive.ne')) inRange positive normal
  · obtain rfl := (rounds.eq_infinite_iff proper.precise.le proper.ranged).mpr high
    exact .infinity high

/-- A number becomes the same as another that is on the same side of both bounds. -/
theorem Becomes.congr (becomes : Becomes f u b) (high : f.infiniteFrom ≤ u ↔ f.infiniteFrom ≤ v)
    (low : u ≤ f.zeroUpTo ↔ v ≤ f.zeroUpTo) : Becomes f v b := by
  cases becomes with
  | infinity above => exact .infinity (high.mp above)
  | zero below => exact .zero (low.mp below)
  | number above below positive normal =>
    exact .number (lt_of_not_ge (mt low.mpr above.not_ge))
      (lt_of_not_ge (mt high.mpr below.not_ge)) positive normal

/-! ## Integers that are rounded twice -/

theorem zeroUpTo_lt_one (proper : f.Proper) : f.zeroUpTo < 1 := by
  have precise := proper.precise
  have ranged := proper.ranged
  calc f.zeroUpTo < (2 : ℝ) ^ (0 : ℤ) := two_zpow_lt (by rw [Format.minExponent]; omega)
    _ = 1 := zpow_zero 2

theorem two_pow_lt_infiniteFrom {k : ℕ} (proper : f.Proper) (within : k + 2 ≤ f.maxExponent) :
    (2 : ℝ) ^ k < f.infiniteFrom := by
  refine lt_of_lt_of_le ?_ (f.two_zpow_le_infiniteFrom proper.precise.le)
  rw [← zpow_natCast]
  exact two_zpow_lt (by omega)

/-- Reading an integer does not move it across the bound of a format that the reading one has all
integers of, nor does it if both have much larger bounds. -/
theorem infiniteFrom_le_iff (proper : f.Proper) (wide : g.Wide)
    (reads : f.maxExponent ≤ g.precision ∨
      i ≤ 2 ^ 64 ∧ 66 ≤ f.maxExponent ∧ 66 ≤ g.maxExponent)
    (rounds : RoundsTo g i u) : f.infiniteFrom ≤ u ↔ f.infiniteFrom ≤ i := by
  rcases reads with fine | ⟨small, reach, -⟩
  · have bound : f.infiniteFrom ≤ 2 ^ g.precision :=
      f.infiniteFrom_lt.le.trans (pow_le_pow_right₀ one_le_two fine)
    rcases le_total i (2 ^ g.precision) with few | many
    · rw [rounds.eq wide.proper (represents_natCast wide few)]
    · have least : (2 : ℝ) ^ g.precision ≤ i := by exact_mod_cast many
      have top := represents_natCast wide (le_refl (2 ^ g.precision))
      rw [Nat.cast_pow, Nat.cast_two] at top
      exact iff_of_true (bound.trans (rounds.ge wide.proper top least)) (bound.trans least)
  · have most : (i : ℝ) ≤ 2 ^ 64 := by exact_mod_cast small
    have low := minExponent_le wide
    have top := represents_two_zpow (f := g) (k := (64 : ℕ)) (by omega)
    rw [zpow_natCast] at top
    have beyond := two_pow_lt_infiniteFrom (k := 64) proper reach
    exact iff_of_false ((rounds.le wide.proper top most).trans_lt beyond).not_ge
      (most.trans_lt beyond).not_ge

theorem becomes_of_integer (proper : f.Proper) (wide : g.Wide)
    (reads : f.maxExponent ≤ g.precision ∨
      i ≤ 2 ^ 64 ∧ 66 ≤ f.maxExponent ∧ 66 ≤ g.maxExponent)
    (positive : 0 < i) (rounds : Rounds g false i r) : Becomes f i (r.convert f) := by
  have least : (1 : ℝ) ≤ i := by exact_mod_cast positive
  rcases lt_or_ge (i : ℝ) g.infiniteFrom with inRange | high
  · obtain ⟨u, is, near⟩ := rounds.exists_is wide.proper inRange
    have one := represents_natCast wide (i := 1) Nat.one_le_two_pow
    rw [Nat.cast_one] at one
    have above := near.ge wide.proper one least
    have tiny := zeroUpTo_lt_one proper
    obtain ⟨m, e, rfl, -, rfl⟩ := is
    exact ((rounds_convert proper.precise.le proper.ranged m e).becomes proper
      (by linarith)).congr (infiniteFrom_le_iff proper wide reads near)
        (iff_of_false (by linarith) (by linarith))
  · obtain rfl := (rounds.eq_infinite_iff wide.proper.precise.le wide.proper.ranged).mpr high
    refine .infinity ?_
    rcases reads with fine | ⟨small, -, reach⟩
    · calc f.infiniteFrom ≤ 2 ^ g.precision :=
            f.infiniteFrom_lt.le.trans (pow_le_pow_right₀ one_le_two fine)
        _ ≤ g.infiniteFrom := (two_pow_lt_infiniteFrom wide.proper (by
            have := wide.ranged
            omega)).le
        _ ≤ i := high
    · have most : (i : ℝ) ≤ 2 ^ 64 := by exact_mod_cast small
      exact absurd (most.trans_lt (two_pow_lt_infiniteFrom wide.proper reach)) high.not_gt

end Binary

namespace Precision

theorem wide_reading (p : Precision) : p.reading.format.Wide :=
  wide (by cases p <;> decide)

/-- The reading format of a real type serves it. -/
theorem reads (p : Precision) {i : ℕ} (small : i ≤ 2 ^ 64) :
    p.format.maxExponent ≤ p.reading.format.precision ∨
      i ≤ 2 ^ 64 ∧ 66 ≤ p.format.maxExponent ∧ 66 ≤ p.reading.format.maxExponent := by
  cases p with
  | half => exact .inl (by decide)
  | _ => exact .inr ⟨small, by decide, by decide⟩

end Precision

/-! ## Accepted constants -/

namespace FistaOptions

open Binary Value

variable {a : NDArray} {p : Precision} {L : Value}

theorem rounds_ofInt_pos {f : Format} (proper : f.Proper) {i : ℤ} (positive : 0 < i) :
    Rounds f false (i.toNat : ℝ) (Binary.ofInt f i) := by
  have rounds := rounds_ofInt proper.precise.le proper.ranged i
  have sign : decide (i < 0) = false := by simpa using positive.le
  have natural : ((i.toNat : ℕ) : ℝ) = |(i : ℝ)| := by
    rw [abs_of_pos (by exact_mod_cast positive)]
    exact_mod_cast Int.toNat_of_nonneg positive.le
  rwa [sign, ← natural] at rounds

theorem cast_toNat {i : ℤ} (positive : 0 < i) : ((i.toNat : ℕ) : ℝ) = ((i : ℚ) : ℝ) := by
  rw [Rat.cast_intCast]
  exact_mod_cast Int.toNat_of_nonneg positive.le

/-- A positive number becomes what it is converted to. -/
theorem becomes_convert (proper : p.format.Proper) {x : Binary} {v : ℚ}
    (number : x.rational? = some v) (positive : 0 < v) : Becomes p.format v (x.convert p.format) := by
  cases x with
  | finite s m e =>
    cases s with
    | false =>
      obtain rfl : ((1 : ℚ) * m * 2 ^ e) = v := Option.some.inj number
      have value : (((1 : ℚ) * m * 2 ^ e : ℚ) : ℝ) = m * 2 ^ e := by push_cast; ring
      rw [value]
      exact (rounds_convert proper.precise.le proper.ranged m e).becomes proper (by positivity)
    | true =>
      have nonneg : (0 : ℚ) ≤ m * 2 ^ e := by positivity
      obtain rfl : ((-1 : ℚ) * m * 2 ^ e) = v := Option.some.inj number
      linarith
  | _ => cases number

/-- An integer literal is read through the reading format. -/
theorem exists_realOfValue_becomes (p : Precision) {i : ℤ} (positive : 0 < i)
    (small : i.natAbs < 2 ^ 64) :
    ∃ b, Scalar.realOfValue p (.int i) = .ok (.real b) ∧ Becomes p.format (i : ℚ) b := by
  have wide := p.wide_reading
  have few : i.toNat ≤ 2 ^ 64 := by omega
  have reads := p.reads few
  have rounds := rounds_ofInt_pos wide.proper positive
  have becomes := becomes_of_integer p.proper wide reads (by omega) rounds
  have inRange : ((i.toNat : ℕ) : ℝ) < p.reading.format.infiniteFrom :=
    lt_of_le_of_lt (by exact_mod_cast few)
      (two_pow_lt_infiniteFrom (k := 64) wide.proper (by cases p <;> decide))
  obtain ⟨u, ⟨m, e, read, -, -⟩, -⟩ := rounds.exists_is wide.proper inRange
  rw [cast_toNat positive] at becomes
  refine ⟨_, ?_, becomes⟩
  rw [Scalar.realOfValue, read]
  rfl

/-- A number with an integer type is cut, to half precision through single precision. -/
theorem exists_cast_becomes (p : Precision) {i : ℤ} (positive : 0 < i) :
    ∃ b, Scalar.cast (.real p) (.int i) = .real b ∧ Becomes p.format (i : ℚ) b := by
  rw [← cast_toNat positive]
  have direct (q : Precision) :
      Becomes q.format (i.toNat : ℕ) (Binary.ofInt q.format i) :=
    (rounds_ofInt_pos q.proper positive).becomes q.proper (Nat.cast_nonneg _)
  cases p with
  | half =>
    have wide : Format.single.Wide := Precision.wide (p := .single) (by decide)
    exact ⟨_, rfl, becomes_of_integer (Precision.proper .half) wide (.inl (by decide)) (by omega)
      (rounds_ofInt_pos wide.proper positive)⟩
  | single => exact ⟨_, rfl, direct .single⟩
  | double => exact ⟨_, rfl, direct .double⟩
  | extended => exact ⟨_, rfl, direct .extended⟩

theorem realScalar_eq (kind : a.dtype.realPart = .real p) {x : Scalar} (leaf : ∀ b, L ≠ .array b)
    (read : entryAs (.real p) L = .ok x) :
    Calculus.realScalar (.array a) L = .ok (.scalar (.real p) x) := by
  change Value.realScalar (.array a) L = _
  have rounds : Value.realScalar (.array a) L =
      (do return Value.scalar a.dtype.realPart (← entryAs a.dtype.realPart L)) := by
    cases L with
    | array b => exact absurd rfl (leaf b)
    | _ => rfl
  rw [rounds, kind, read]
  rfl

/-- What an accepted constant comes to in the real type of an array. -/
theorem exists_realScalar_becomes (kind : a.dtype.realPart = .real p) (typed : L.IsTyped)
    (checked : checkLipschitz L = .ok ()) :
    ∃ (v : ℚ) (b : Binary), L.rational? = some v ∧ 0 < v ∧
      Calculus.realScalar (.array a) L = .ok (.number p b) ∧ Becomes p.format v b := by
  obtain ⟨unsized, sized⟩ := checkLipschitz_eq typed
  have size : L.isUnsized = false := by
    by_contra beyond
    cases (unsized (Bool.not_eq_false _ ▸ beyond)).symm.trans checked
  obtain ⟨v, number, positive⟩ : L.IsPositive := by
    by_contra refused
    cases ((sized size).2 refused).symm.trans checked
  cases L with
  | int i =>
    cases number
    have asked := (checkLipschitz_eq_ok checked).2
    obtain ⟨b, read, becomes⟩ := exists_realOfValue_becomes p (by exact_mod_cast positive)
      (natAbs_lt_of_isFinitePositive? asked)
    exact ⟨i, b, rfl, positive, realScalar_eq kind nofun read, becomes⟩
  | real x => exact ⟨v, _, number, positive, realScalar_eq kind nofun rfl,
      becomes_convert p.proper number positive⟩
  | scalar d x =>
    cases d with
    | int s bits =>
      obtain ⟨i, rfl⟩ := typed
      cases number
      obtain ⟨b, cut, becomes⟩ := exists_cast_becomes p (by exact_mod_cast positive)
      exact ⟨i, b, rfl, positive, realScalar_eq kind nofun (congrArg Except.ok cut), becomes⟩
    | real q =>
      obtain ⟨x, rfl⟩ := typed
      have cut : Scalar.cast (.real p) (.real x) = .real (x.convert p.format) := by
        cases p <;> rfl
      exact ⟨v, _, number, positive, realScalar_eq kind nofun (congrArg Except.ok cut),
        becomes_convert p.proper number positive⟩
    | _ => cases number
  | fraction => cases size
  | _ => cases number

end FistaOptions

end ProxGrad
