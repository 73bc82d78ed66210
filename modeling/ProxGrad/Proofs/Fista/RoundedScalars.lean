import ProxGrad.Proofs.Fista.Momentum
import ProxGrad.Proofs.Fista.Progress
import ProxGrad.Proofs.RoundedConstants

/-!
# The scalars of floating runs

What a run computes from its constant and its plan alone, in the real type of its point. The
constant is what it becomes there. The momentum never overflows in single, double and extended
precision. In half precision it does after 254 iterations without a reset, and from then on no
weight is a number.
-/

set_option autoImplicit false

namespace ProxGrad

namespace Binary

variable {f : Format} {b t u : Binary} {x : ℝ}

/-! ## Numbers from one on, and fractions -/

theorem Is.exists_rational (is : Is f b x) : ∃ q : ℚ, b.rational? = some q ∧ (q : ℝ) = x := by
  obtain ⟨m, e, rfl, -, rfl⟩ := is
  refine ⟨_, rfl, ?_⟩
  rw [if_neg Bool.false_ne_true, one_mul]
  push_cast
  rfl

def isAtLeastOne : Binary → Bool
  | .finite false m e => 2 ^ (-e).toNat ≤ m * 2 ^ e.toNat
  | _ => false

/-- Whether a number is at least zero and less than one. -/
def isFraction : Binary → Bool
  | .finite false m e => m * 2 ^ e.toNat < 2 ^ (-e).toNat
  | _ => false

theorem two_zpow_eq_div (e : ℤ) : (2 : ℚ) ^ e = 2 ^ e.toNat / 2 ^ (-e).toNat := by
  rw [eq_div_iff (by positivity), ← zpow_natCast, ← zpow_natCast, ← zpow_add₀ two_ne_zero]
  congr 1
  omega

theorem one_le_of_isAtLeastOne (large : b.isAtLeastOne = true) :
    ∃ q, b.rational? = some q ∧ 1 ≤ q := by
  obtain ⟨m, e, rfl⟩ : ∃ m e, b = .finite false m e := by
    cases b with
    | finite s m e => cases s <;> first | exact ⟨m, e, rfl⟩ | cases large
    | _ => cases large
  refine ⟨_, rfl, ?_⟩
  have whole : 2 ^ (-e).toNat ≤ m * 2 ^ e.toNat := of_decide_eq_true large
  rw [if_neg Bool.false_ne_true, one_mul, two_zpow_eq_div, ← mul_div_assoc,
    le_div_iff₀ (by positivity), one_mul]
  exact_mod_cast whole

theorem lt_one_of_isFraction (small : b.isFraction = true) :
    ∃ q, b.rational? = some q ∧ 0 ≤ q ∧ q < 1 := by
  obtain ⟨m, e, rfl⟩ : ∃ m e, b = .finite false m e := by
    cases b with
    | finite s m e => cases s <;> first | exact ⟨m, e, rfl⟩ | cases small
    | _ => cases small
  refine ⟨_, rfl, ?_, ?_⟩
  · rw [if_neg Bool.false_ne_true]
    positivity
  · have whole : m * 2 ^ e.toNat < 2 ^ (-e).toNat := of_decide_eq_true small
    rw [if_neg Bool.false_ne_true, one_mul, two_zpow_eq_div, ← mul_div_assoc,
      div_lt_one (by positivity)]
    exact_mod_cast whole

/-- A momentum that is a number and at least one, and has a weight below one. -/
def Usable (f : Format) (t : Binary) : Prop :=
  (∃ q, t.rational? = some q ∧ 1 ≤ q) ∧
    ∃ q, (weight f t (nextMomentum f t)).rational? = some q ∧ 0 ≤ q ∧ q < 1

/-! ## Wide formats -/

theorem usable_of_is (wide : f.Wide) (is : Is f t x) (one_le : 1 ≤ x)
    (le : x ≤ 2 ^ (f.precision - 1)) : Usable f t := by
  obtain ⟨y, next, least, -, close⟩ := exists_is_nextMomentum wide is one_le le
  obtain ⟨z, weighs, less⟩ := exists_is_weight wide is one_le le next least close
  have nonneg := weighs.nonneg
  obtain ⟨q, number, rfl⟩ := is.exists_rational
  obtain ⟨θ, fraction, rfl⟩ := weighs.exists_rational
  exact ⟨⟨q, number, by exact_mod_cast one_le⟩, θ, fraction, by exact_mod_cast nonneg,
    by exact_mod_cast less⟩

theorem usable_iterate (wide : f.Wide) (n : ℕ) : Usable f ((nextMomentum f)^[n] (ofInt f 1)) := by
  have bounds : ∃ x, Is f ((nextMomentum f)^[n] (ofInt f 1)) x ∧ 1 ≤ x ∧
      x ≤ 2 ^ (f.precision - 1) := by
    induction n with
    | zero =>
      have one := is_ofInt wide (i := 1) (by decide)
      rw [Nat.cast_one, Nat.cast_one] at one
      exact ⟨1, one, le_rfl, one_le_pow₀ one_le_two⟩
    | succ n ih =>
      obtain ⟨x, is, one_le, le⟩ := ih
      obtain ⟨y, next, least, most, -⟩ := exists_is_nextMomentum wide is one_le le
      exact ⟨y, Function.iterate_succ_apply' .. ▸ next, least, most⟩
  obtain ⟨x, is, one_le, le⟩ := bounds
  exact usable_of_is wide is one_le le

/-! ## Half precision -/

/-- The momentum after so many steps, provided that the ones before it are usable. -/
def steady (f : Format) : ℕ → Binary → Option Binary
  | 0, t => some t
  | k + 1, t =>
    let next := nextMomentum f t
    if t.isAtLeastOne && (weight f t next).isFraction then steady f k next else none

theorem usable_of_steady {k : ℕ} (lasts : steady f k t = some u) :
    (nextMomentum f)^[k] t = u ∧ ∀ j < k, Usable f ((nextMomentum f)^[j] t) := by
  induction k generalizing t with
  | zero => exact ⟨Option.some.inj lasts, nofun⟩
  | succ k ih =>
    rw [steady] at lasts
    split_ifs at lasts with usable
    rw [Bool.and_eq_true] at usable
    obtain ⟨last, rest⟩ := ih lasts
    refine ⟨last, fun j less => ?_⟩
    cases j with
    | zero => exact ⟨one_le_of_isAtLeastOne usable.1, lt_one_of_isFraction usable.2⟩
    | succ j => exact rest j (Nat.lt_of_succ_lt_succ less)

theorem steady_half : steady .half 254 (ofInt .half 1) = some (.infinite false) := by
  decide +kernel

theorem iterate_half_eq_infinite {n : ℕ} (late : 254 ≤ n) :
    (nextMomentum .half)^[n] (ofInt .half 1) = .infinite false := by
  obtain ⟨k, rfl⟩ := Nat.exists_eq_add_of_le' late
  have fixed : nextMomentum .half (.infinite false) = .infinite false := rfl
  rw [Function.iterate_add_apply, (usable_of_steady steady_half).1, Function.iterate_fixed fixed]

/-! ## With a reset -/

/-- The momentum after so many iterations that start with one. -/
def momentumAfter (f : Format) (resetAfter : Option ℕ) : ℕ → Binary
  | 0 => ofInt f 1
  | n + 1 =>
    if resetAfter.any (· ≤ n + 1) then ofInt f 1 else nextMomentum f (momentumAfter f resetAfter n)

theorem momentumAfter_of_reset {resetAfter : Option ℕ} {n R : ℕ} (resets : resetAfter = some R)
    (late : R ≤ n) : momentumAfter f resetAfter n = ofInt f 1 := by
  cases n with
  | zero => rfl
  | succ n => rw [momentumAfter, if_pos (by simpa [resets] using late)]

theorem momentumAfter_of_free {resetAfter : Option ℕ} {n : ℕ}
    (free : ∀ R, resetAfter = some R → n < R) :
    momentumAfter f resetAfter n = (nextMomentum f)^[n] (ofInt f 1) := by
  induction n with
  | zero => rfl
  | succ n ih =>
    have none : resetAfter.any (· ≤ n + 1) = false := by
      cases resetAfter with
      | none => rfl
      | some R => simpa using free R rfl
    rw [momentumAfter, none, ih fun R resets => (Nat.lt_succ_self n).trans (free R resets),
      Function.iterate_succ_apply']
    rfl

theorem momentumAfter_half_of_free {resetAfter : Option ℕ} {n : ℕ} (late : 254 ≤ n)
    (free : ∀ R, resetAfter = some R → n < R) :
    momentumAfter Precision.half.format resetAfter n = .infinite false :=
  (momentumAfter_of_free free).trans (iterate_half_eq_infinite late)

/-- The momentum after so many iterations is usable, but in half precision a late one that is not
reset. -/
theorem usable_momentumAfter {p : Precision} {resetAfter : Option ℕ} {n : ℕ}
    (lasts : p ≠ .half ∨ n < 254 ∨ ∃ R, resetAfter = some R ∧ R ≤ n) :
    Usable p.format (momentumAfter p.format resetAfter n) := by
  have plain {n : ℕ} (lasts : p ≠ .half ∨ n < 254) :
      Usable p.format ((nextMomentum p.format)^[n] (ofInt p.format 1)) := by
    by_cases half : p = .half
    · subst half
      exact (usable_of_steady steady_half).2 n (lasts.resolve_left fun wider => wider rfl)
    · exact usable_iterate (Precision.wide half) n
  by_cases reset : ∃ R, resetAfter = some R ∧ R ≤ n
  · obtain ⟨R, resets, late⟩ := reset
    rw [momentumAfter_of_reset resets late]
    exact plain (n := 0) (.inr (by decide))
  · rw [momentumAfter_of_free fun R resets => Nat.lt_of_not_le fun late => reset ⟨R, resets, late⟩]
    exact plain (lasts.imp_right fun few => few.resolve_right reset)

end Binary

namespace Fista

open Binary

variable {plan : Plan Value} {s : State Value} {p : Precision} {n : ℕ}

theorem convert_momentumAfter (p : Precision) (resetAfter : Option ℕ) (n : ℕ) :
    (Binary.momentumAfter p.format resetAfter n).convert p.format =
      Binary.momentumAfter p.format resetAfter n := by
  have one := (Value.realOfValue_small p (.inl rfl : (1 : ℤ) = 1 ∨ _)).2
  cases n with
  | zero => exact one
  | succ n =>
    rw [Binary.momentumAfter]
    split_ifs
    · exact one
    · exact convert_nextMomentum p.proper _

theorem momentumAfter_number (plan : Plan Value) (p : Precision) (n : ℕ) :
    momentumAfter plan (.number p (ofInt p.format 1)) n =
      .ok (.number p (Binary.momentumAfter p.format plan.resetAfter n)) := by
  induction n with
  | zero => rfl
  | succ n ih =>
    rw [momentumAfter, ih]
    change (momentum (Value.number p _) >>= _) = _
    rw [Value.momentum_number (convert_momentumAfter p _ n), Binary.momentumAfter]
    change Except.ok _ = _
    split_ifs <;> rfl

theorem weight_number {t : Binary} (holds : s.momentum = .number p t)
    (rounded : t.convert p.format = t) :
    s.weight = .ok (.number p (Binary.weight p.format t (Binary.nextMomentum p.format t))) := by
  have grown := Value.momentum_number rounded
  have lowered : Value.arithmetic .sub (.number p t) (.int 1) =
      .ok (.number p (Binary.sub p.format t (ofInt p.format 1))) :=
    Value.arithmetic_number_int .sub (.inl rfl) rounded
  have less : (Binary.sub p.format t (ofInt p.format 1)).convert p.format =
      Binary.sub p.format t (ofInt p.format 1) := convert_add p.proper _ _
  have divided := Value.arithmetic_numbers .div less (convert_nextMomentum p.proper t)
  rw [State.weight, holds, grown]
  change (Value.arithmetic .sub (.number p t) (.int 1) >>=
    fun d => Value.arithmetic .div d (.number p (Binary.nextMomentum p.format t))) = _
  rw [lowered]
  exact divided

/-- The scalars where a floating run stands, as numbers of the real type of its point. -/
theorem Reached.scalars_number {objective : Objective Value} {x : Cell} {begun m : Memory Value}
    {w : Workspace Value} {a : NDArray} (kind : a.dtype.realPart = .real p)
    (accelerated : plan.accelerated = true) (held : begun.content x = some (.array a))
    (reached : Reached objective plan x begun n w s m) :
    let t := Binary.momentumAfter p.format plan.resetAfter n
    (∃ L, plan.lipschitz = some L ∧ Calculus.realScalar (.array a) L = .ok w.lipschitz) ∧
      s.momentum = .number p t ∧
      s.weight = .ok (.number p (Binary.weight p.format t (Binary.nextMomentum p.format t))) := by
  have settled := reached.momentumAfter accelerated
  obtain ⟨_, _, _, opens, -, -⟩ := reached
  obtain ⟨start, L, held', bound, constant, unit, -⟩ := exists_scalars_of_setUp opens
  cases held.symm.trans held'
  have one : w.start = .number p (ofInt p.format 1) := by
    have read := FistaOptions.realScalar_eq (L := .int 1) kind nofun
      (Value.realOfValue_small p (.inl rfl)).1
    exact Except.ok.inj (unit.symm.trans read)
  rw [one, momentumAfter_number] at settled
  have holds := (Except.ok.inj settled).symm
  exact ⟨⟨L, bound, constant⟩, holds, weight_number holds (convert_momentumAfter p _ n)⟩

/-- The scalars of floating runs. An accepted constant is a positive number, and becomes in the
real type of the point what its size says: an infinity, zero, or a number. The momentum and the
weight with which the iterations extrapolate are numbers, at least one and at least zero and less
than one, with one exception: in half precision the momentum after 254 iterations without a reset is
infinite, and the weights from there on are not numbers. -/
theorem scalars_become_numbers {a : NDArray} (kind : a.dtype.realPart = .real p) :
    (∀ L : Value, L.IsTyped → FistaOptions.checkLipschitz L = .ok () →
      ∃ (v : ℚ) (b : Binary), L.rational? = some v ∧ 0 < v ∧
        Calculus.realScalar (.array a) L = .ok (.number p b) ∧ Becomes p.format v b) ∧
    ∀ (objective : Objective Value) (plan : Plan Value) x begun n w s m,
      plan.accelerated = true → begun.content x = some (.array a) →
      Reached objective plan x begun n w s m →
        (∃ L, plan.lipschitz = some L ∧ Calculus.realScalar (.array a) L = .ok w.lipschitz) ∧
        (p ≠ .half ∨ n < 254 ∨ (∃ R, plan.resetAfter = some R ∧ R ≤ n) →
          ∃ (t θ : Binary) (q z : ℚ), s.momentum = .number p t ∧ t.rational? = some q ∧ 1 ≤ q ∧
            s.weight = .ok (.number p θ) ∧ θ.rational? = some z ∧ 0 ≤ z ∧ z < 1) ∧
        (p = .half → 254 ≤ n → (∀ R, plan.resetAfter = some R → n < R) →
          s.momentum = .number p (.infinite false) ∧ s.weight = .ok (.number p .nan)) := by
  refine ⟨fun L => FistaOptions.exists_realScalar_becomes kind,
    fun objective plan x begun n w s m accelerated held reached => ?_⟩
  obtain ⟨constant, holds, weighs⟩ := reached.scalars_number kind accelerated held
  refine ⟨constant, fun lasts => ?_, fun half late free => ?_⟩
  · obtain ⟨⟨q, number, one_le⟩, z, fraction, nonneg, less⟩ := usable_momentumAfter lasts
    exact ⟨_, _, q, z, holds, number, one_le, weighs, fraction, nonneg, less⟩
  · subst half
    rw [momentumAfter_half_of_free late free] at holds weighs
    exact ⟨holds, weighs⟩

/-! ## Runs in half precision -/

/-- An objective whose terms leave all arrays as they are. -/
def idle : Objective Value where
  smooth := {
    valueAndGradient := fun _ _ => pure (.int 0)
    gradient := fun _ _ => pure ()
    value := fun _ => pure (.int 0) }
  proximal := {
    prox := fun _ _ _ => pure ()
    value := fun _ => pure (.int 0) }

def halves (entries : List Int) : NDArray :=
  ⟨.real .half, .ofList (entries.map fun i => .real (Binary.ofInt .half i))⟩

/-- Nothing stops a run of such an objective. -/
theorem exists_reached_idle (count : ℕ) (a : NDArray) (floating : a.dtype.isInexact = true)
    (bound : n ≤ count) :
    ∃ w s m, Reached idle (halfSteps count) ⟨0⟩ { cells := #[.array a] } n w s m := by
  have lasting : idle.Lasting :=
    ⟨fun _ _ => .of_still (Action.still_pure _), fun _ _ => .of_still (Action.still_pure _),
      fun _ _ _ => .of_still (Action.still_pure _)⟩
  have constant := FistaOptions.exists_realScalar (v := .real (Binary.ofInt .double 2)) rfl floating
  have held : ({ cells := #[.array a] } : Memory Value).content ⟨0⟩ = some (.array a) := rfl
  have iterations : (halfSteps count).iterations = some count := rfl
  obtain ⟨w, first, prepared, opens, equipped, carried⟩ :=
    exists_setUp held floating (fun _ a => ⟨a, rfl, rfl, rfl⟩) iterations rfl constant nofun
  rcases equipped.afterIterations_or_stopped lasting carried bound with
    ⟨s, m, ran, -⟩ | ⟨_, _, _, _, _, -, -, -, stopped⟩
  · exact ⟨w, s, m, count, first, prepared, opens, bound, ran⟩
  · cases stopped with
    | evaluation failed => cases failed
    | value asked => cases asked
    | prox evaluated failed => cases failed

/-- Of 256 iterations in half precision the last two extrapolate with a weight that is no number. -/
theorem half_weights_end :
    (∃ b, Calculus.realScalar (Value.array (halves [0])) (.int 3) = .ok (.number .half b) ∧
      Becomes .half 3 b) ∧
    ∀ n < 256, ∃ w s m,
      Reached idle (halfSteps 256) ⟨0⟩ { cells := #[.array (halves [0])] } n w s m ∧
      (n < 254 → ∃ θ z, s.weight = .ok (.number .half θ) ∧ θ.rational? = some z ∧ 0 ≤ z ∧ z < 1) ∧
      (254 ≤ n → s.weight = .ok (.number .half .nan)) := by
  have kind : (halves [0]).dtype.realPart = .real .half := rfl
  obtain ⟨constants, runs⟩ := scalars_become_numbers kind
  refine ⟨?_, fun n bound => ?_⟩
  · obtain ⟨v, b, number, -, rounds, becomes⟩ := constants (.int 3) trivial rfl
    obtain rfl : (3 : ℚ) = v := Option.some.inj number
    rw [show ((3 : ℚ) : ℝ) = 3 by norm_num] at becomes
    exact ⟨b, rounds, becomes⟩
  · obtain ⟨w, s, m, reached⟩ := exists_reached_idle 256 (halves [0]) rfl bound.le
    obtain ⟨-, numbers, ends⟩ := runs idle (halfSteps 256) ⟨0⟩ _ n w s m rfl rfl reached
    refine ⟨w, s, m, reached, fun few => ?_, fun late => (ends rfl late nofun).2⟩
    obtain ⟨_, θ, _, z, -, -, -, weighs, fraction, nonneg, less⟩ := numbers (.inr (.inl few))
    exact ⟨θ, z, weighs, fraction, nonneg, less⟩

/-- One hundred-millionth is accepted as a constant and zero in half precision, and a run of 255
iterations in half precision has an infinite momentum and a weight that is no number. -/
theorem half_scalars_fail :
    let tiny : Value := .real (Binary.ofRatio .double false 1 (10 ^ 8))
    FistaOptions.checkLipschitz tiny = .ok () ∧
      Calculus.realScalar (.array (halves [1])) tiny =
        .ok (.number .half (Binary.ofInt .half 0)) ∧
      ∃ w s m, Reached idle (halfSteps 255) ⟨0⟩ { cells := #[.array (halves [0])] } 254 w s m ∧
        s.momentum = .number .half (.infinite false) ∧ s.weight = .ok (.number .half .nan) := by
  refine ⟨rfl, rfl, ?_⟩
  obtain ⟨w, s, m, reached⟩ := exists_reached_idle (n := 254) 255 (halves [0]) rfl (by decide)
  obtain ⟨-, holds, weighs⟩ := reached.scalars_number (p := .half) rfl rfl rfl
  have overflowed :
      Binary.momentumAfter Precision.half.format (halfSteps 255).resetAfter 254 = .infinite false :=
    momentumAfter_half_of_free (le_refl 254) nofun
  rw [overflowed] at holds weighs
  exact ⟨w, s, m, reached, holds, weighs⟩

end Fista

end ProxGrad
