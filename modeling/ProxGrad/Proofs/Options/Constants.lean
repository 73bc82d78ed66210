import Mathlib.Algebra.Order.Ring.Rat
import Mathlib.Tactic.Positivity
import ProxGrad.Proofs.Options

/-!
# Which constants are accepted

The Lipschitz constants that a caller may give are the finite positive real numbers. Where options
are made or rebound the constant decides: it is accepted or refused, but for exact numbers that no
element type holds. Of these nothing is asked, and the question fails.
-/

set_option autoImplicit false

namespace ProxGrad

/-! ## Numbers -/

/-- The rational number that a finite number is. -/
def Binary.rational? : Binary → Option ℚ
  | .finite negative significand exponent =>
    some ((if negative then -1 else 1) * significand * 2 ^ exponent)
  | _ => none

/-- A finite number is positive unless it is zero or has a sign. -/
theorem Binary.exists_rational_pos_iff (x : Binary) :
    (∃ q, x.rational? = some q ∧ 0 < q) ↔ (x.isFinite && !x.isZero && !x.isNegative) = true := by
  cases x with
  | nan => simp [rational?, isFinite]
  | infinite => simp [rational?, isFinite]
  | finite negative significand exponent =>
    have power : (0 : ℚ) < 2 ^ exponent := zpow_pos two_pos exponent
    have scaled : 0 < (significand : ℚ) * 2 ^ exponent ↔ significand ≠ 0 := by
      rw [mul_pos_iff_of_pos_right power, Nat.cast_pos, Nat.pos_iff_ne_zero]
    cases negative with
    | false => simpa [rational?, isFinite, isZero, isNegative] using scaled
    | true =>
      have sign : ¬ 0 < -(significand * 2 ^ exponent : ℚ) := by
        rw [not_lt, neg_nonpos]
        positivity
      simpa [rational?, isFinite, isZero, isNegative] using sign

def Scalar.rational? : Scalar → Option ℚ
  | .int i => some i
  | .real x => x.rational?
  | _ => none

namespace Value

/-- The rational number that a value is, where it is a finite real number and no truth value. -/
def rational? : Value → Option ℚ
  | .int i => some i
  | .fraction num den => some (num / den)
  | .real x => x.rational?
  | .scalar (.int ..) x | .scalar (.real _) x => x.rational?
  | _ => none

def IsPositive (v : Value) : Prop :=
  ∃ q, v.rational? = some q ∧ 0 < q

theorem isPositive_scalar_real (p : Precision) (x : Binary) :
    (scalar (.real p) (.real x)).IsPositive ↔ (x.isFinite && !x.isZero && !x.isNegative) = true :=
  x.exists_rational_pos_iff

/-- Whether a value is an exact number that no element type holds. -/
def isUnsized : Value → Bool
  | .int i => !(DType.holds true 64 i || DType.holds false 64 i)
  | .fraction .. => true
  | _ => false

/-- A number with a real element type is a number of that type. -/
def IsTyped : Value → Prop
  | .scalar (.int ..) x => ∃ i, x = .int i
  | .scalar (.real _) x => ∃ r, x = .real r
  | _ => True

/-- A number that is counted from a least one, or nothing. -/
def IsCount (least : Int) (v : Value) : Prop :=
  v.isAbsent = true ∨ ∃ n, v.integer? = some n ∧ least ≤ n

theorem isFinitePositive?_of_isUnsized {v : Value} (unsized : v.isUnsized = true) :
    v.isReal = true ∧ v.isFinitePositive? = .error .operandTypes := by
  cases v with
  | int i =>
    have outside : ¬ (DType.holds true 64 i || DType.holds false 64 i) = true := by
      simpa [isUnsized] using unsized
    exact ⟨rfl, if_neg outside⟩
  | fraction => exact ⟨rfl, rfl⟩
  | _ => cases unsized

/-- Whether a sized number is positive is decided. -/
theorem isFinitePositive?_of_isReal {v : Value} (typed : v.IsTyped) (sized : v.isUnsized = false)
    (real : v.isReal = true) :
    ∃ positive, v.isFinitePositive? = .ok positive ∧ (positive = true ↔ v.IsPositive) := by
  have integer (i : Int) : (decide (0 < i)) = true ↔ ∃ q : ℚ, some (i : ℚ) = some q ∧ 0 < q := by
    simp
  cases v with
  | int i =>
    have inside : (DType.holds true 64 i || DType.holds false 64 i) = true := by
      rwa [isUnsized, Bool.not_eq_false'] at sized
    exact ⟨_, if_pos inside, integer i⟩
  | real x => exact ⟨_, rfl, x.exists_rational_pos_iff.symm⟩
  | scalar d x =>
    cases d with
    | int =>
      obtain ⟨i, rfl⟩ := typed
      exact ⟨_, rfl, integer i⟩
    | real =>
      obtain ⟨r, rfl⟩ := typed
      exact ⟨_, rfl, (isPositive_scalar_real _ r).symm⟩
    | _ => cases real
  | fraction => cases sized
  | _ => cases real

theorem isReal_of_isPositive {v : Value} (positive : v.IsPositive) : v.isReal = true := by
  obtain ⟨q, number, -⟩ := positive
  cases v with
  | scalar d x =>
    cases d with
    | int | real => rfl
    | _ => cases number
  | int | real | fraction => rfl
  | _ => cases number

/-- What is found to be positive is a positive number. -/
theorem isPositive_of_isFinitePositive? {v : Value} (real : v.isReal = true)
    (asked : v.isFinitePositive? = .ok true) : v.IsPositive := by
  have integer {i : Int} (positive : (.ok (decide (0 < i)) : Except Fault Bool) = .ok true) :
      ∃ q : ℚ, some (i : ℚ) = some q ∧ 0 < q := by
    simpa using positive
  have number {x : Binary}
      (positive : (.ok (x.isFinite && !x.isZero && !x.isNegative) : Except Fault Bool) = .ok true) :
      ∃ q, x.rational? = some q ∧ 0 < q :=
    x.exists_rational_pos_iff.mpr (Except.ok.inj positive)
  cases v with
  | int i =>
    rw [isFinitePositive?] at asked
    split at asked
    · exact integer asked
    · cases asked
  | real x => exact number asked
  | scalar d x =>
    cases d with
    | int | real =>
      cases x with
      | int i => exact integer asked
      | real x => exact number asked
      | _ => cases asked
    | _ => cases real
  | fraction => cases asked
  | _ => cases real

theorem not_isPositive_of_isAbsent {v : Value} (absent : v.isAbsent = true) : ¬ v.IsPositive := by
  rintro ⟨q, number, -⟩
  cases v with
  | absent => cases number
  | _ => cases absent

end Value

namespace FistaOptions

open Value

/-! ## Checks -/

/-- The fault of a parameter that is refused. -/
def refusal (defect : String → OptionsDefect) (v : Value) : Fault :=
  if v.toEntry.isWritable then .invalidOptions (defect v.written) else .digitLimit

theorem refuse_eq (defect : String → OptionsDefect) (v : Value) :
    refuse defect v = .error (refusal defect v) := by
  unfold refuse refusal written?
  split <;> rfl

theorem checkCount_eq (least : Int) (defect : String → OptionsDefect) (v : Value) :
    (v.IsCount least → checkCount least defect v = .ok ()) ∧
      (¬ v.IsCount least → checkCount least defect v = .error (refusal defect v)) := by
  have asked : (v.isAbsent || v.integer?.any (least ≤ ·)) = true ↔ v.IsCount least := by
    simp [IsCount, Option.any_eq_true]
  constructor
  · intro counted
    exact if_pos (asked.mpr counted)
  · intro refused
    rw [← refuse_eq]
    exact if_neg fun counted => refused (asked.mp counted)

/-- The check of a constant fails without an answer for an unsized number, and accepts of all other
values the positive numbers. -/
theorem checkLipschitz_eq {v : Value} (typed : v.IsTyped) :
    (v.isUnsized = true → checkLipschitz v = .error .operandTypes) ∧
      (v.isUnsized = false →
        (v.IsPositive → checkLipschitz v = .ok ()) ∧
        (¬ v.IsPositive → checkLipschitz v = .error (refusal .lipschitz v))) := by
  constructor
  · intro unsized
    obtain ⟨real, asked⟩ := isFinitePositive?_of_isUnsized unsized
    rw [checkLipschitz, real, asked]
    rfl
  · intro sized
    cases real : v.isReal with
    | false =>
      refine ⟨fun positive => ?_, fun _ => ?_⟩
      · cases (isReal_of_isPositive positive).symm.trans real
      · rw [checkLipschitz, real, ← refuse_eq]
        rfl
    | true =>
      obtain ⟨positive, asked, answers⟩ := isFinitePositive?_of_isReal typed sized real
      rw [checkLipschitz, real, asked, ← answers, ← refuse_eq]
      cases positive with
      | false => exact ⟨fun impossible => (by cases impossible), fun _ => rfl⟩
      | true => exact ⟨fun _ => rfl, fun impossible => absurd rfl impossible⟩

/-! ## Ways of making options -/

variable {space : Option Nat}
  {L accelerated resetCounter iterations verbose recorded : Value}

theorem checkParameters_eq (counter : resetCounter.IsCount 1) (count : iterations.IsCount 0) :
    checkParameters L resetCounter iterations =
      if L.isAbsent then .ok () else checkLipschitz L := by
  have first := (checkCount_eq 1 .resetCounter resetCounter).1 counter
  have second := (checkCount_eq 0 .iterations iterations).1 count
  rw [checkParameters, first, second]
  cases L.isAbsent with
  | true => rfl
  | false => cases checkLipschitz L <;> rfl

/-- The other arguments of the function that makes options give no cause to fail: the flags have a
truth, and there is room for a history that is asked for. -/
structure Grants (space : Option Nat) (L accelerated iterations verbose recorded : Value) :
    Prop where
  accelerated : ∃ b, accelerated.truth? = .ok b
  verbose : ∃ b, verbose.truth? = .ok b
  recorded : ∃ b, recorded.truth? = .ok b ∧
    (b = true → ∀ n, iterations.integer? = some n → ∃ a, newHistory space n L = .ok a)

theorem exists_build_eq_ok (checked : checkParameters L resetCounter iterations = .ok ())
    (grants : Grants space L accelerated iterations verbose recorded) (m : Memory Value) :
    ∃ o m', (build space L accelerated resetCounter iterations verbose recorded).outcome m =
      (.ok o, m') ∧ o.lipschitz = L := by
  obtain ⟨fast, isFast⟩ := grants.accelerated
  obtain ⟨loud, isLoud⟩ := grants.verbose
  obtain ⟨recording, asked, room⟩ := grants.recorded
  rw [build, checked, Action.outcome_bind_of_ok (Action.outcome_lift _ m), asked,
    Action.outcome_bind_of_ok (Action.outcome_lift _ m), isFast, isLoud]
  cases recording with
  | false => exact ⟨_, m, rfl, rfl⟩
  | true =>
    cases counted : iterations.integer? with
    | none => exact ⟨_, m, rfl, rfl⟩
    | some n =>
      obtain ⟨a, allocated⟩ := room rfl n counted
      simp only [allocated]
      exact ⟨_, m.push (.array a), rfl, rfl⟩

theorem make_eq_error {fault : Fault} {history : Option (Cell × Value)}
    (checked : checkParameters L resetCounter iterations = .error fault) :
    make L accelerated resetCounter iterations verbose history = .error fault := by
  unfold make
  rw [checked]
  rfl

theorem build_eq_error {fault : Fault}
    (checked : checkParameters L resetCounter iterations = .error fault) (m : Memory Value) :
    (build space L accelerated resetCounter iterations verbose recorded).outcome m =
      (.error fault, m) := by
  rw [build, checked]
  exact Action.outcome_bind_of_error (Action.outcome_lift _ m)

/-- Neither way of making options of a constant, nor rebinding any to it, gets beyond a fault. -/
structure FailsWith (L resetCounter iterations : Value) (fault : Fault) : Prop where
  made (accelerated verbose : Value) (history : Option (Cell × Value)) :
    make L accelerated resetCounter iterations verbose history = .error fault
  built (space : Option Nat) (accelerated verbose recorded : Value) (m : Memory Value) :
    (build space L accelerated resetCounter iterations verbose recorded).outcome m =
      (.error fault, m)
  rebound (o : FistaOptions) : o.withLipschitz L = .error fault

theorem failsWith_of_checkLipschitz {fault : Fault} (counter : resetCounter.IsCount 1)
    (count : iterations.IsCount 0) (present : L.isAbsent = false)
    (refused : checkLipschitz L = .error fault) : FailsWith L resetCounter iterations fault := by
  have failed : checkParameters L resetCounter iterations = .error fault := by
    rw [checkParameters_eq counter count, present, refused]
    rfl
  refine ⟨fun _ _ _ => make_eq_error failed, fun _ _ _ _ m => build_eq_error failed m, fun o => ?_⟩
  rw [withLipschitz, refused]
  rfl

/-- With counts that are accepted, options are made of a constant exactly if it is absent or a
positive number, and rebound exactly if it is a positive number. Any other is refused, in a message
that shows it if it can be written. The unsized numbers are the exception: they fail as operands of
a type without the question, whether they are positive or not. -/
theorem constant_decides (typed : L.IsTyped) (counter : resetCounter.IsCount 1)
    (count : iterations.IsCount 0) :
    (L.isAbsent = true ∨ L.isUnsized = false ∧ L.IsPositive →
      (∀ accelerated verbose, make L accelerated resetCounter iterations verbose none =
        .ok ⟨L, accelerated, resetCounter, iterations, verbose, none⟩) ∧
      ∀ space accelerated verbose recorded, Grants space L accelerated iterations verbose recorded →
        ∀ m, ∃ o m', (build space L accelerated resetCounter iterations verbose
          recorded).outcome m = (.ok o, m') ∧ o.lipschitz = L) ∧
    (L.isUnsized = false ∧ L.IsPositive →
      ∀ o : FistaOptions, o.withLipschitz L = .ok { o with lipschitz := L }) ∧
    (L.isAbsent = true → ∀ o : FistaOptions,
      o.withLipschitz L = .error (refusal .lipschitz L)) ∧
    (L.isAbsent = false → L.isUnsized = false → ¬ L.IsPositive →
      FailsWith L resetCounter iterations (refusal .lipschitz L)) ∧
    (L.isUnsized = true → FailsWith L resetCounter iterations .operandTypes) := by
  obtain ⟨unsized, sized⟩ := checkLipschitz_eq typed
  refine ⟨fun given => ?_, ?_, ?_, ?_, ?_⟩
  · have accepted : checkParameters L resetCounter iterations = .ok () := by
      rw [checkParameters_eq counter count]
      split_ifs with absent
      · rfl
      · obtain impossible | ⟨size, positive⟩ := given
        · exact absurd impossible absent
        · exact (sized size).1 positive
    constructor
    · intro accelerated verbose
      rw [make, accepted]
      rfl
    · intro space accelerated verbose recorded grants m
      exact exists_build_eq_ok accepted grants m
  · rintro ⟨size, positive⟩ o
    rw [withLipschitz, (sized size).1 positive]
    rfl
  · intro absent o
    have size : L.isUnsized = false := by
      cases L with
      | absent => rfl
      | _ => cases absent
    rw [withLipschitz, (sized size).2 (not_isPositive_of_isAbsent absent)]
    rfl
  · intro present size nonpositive
    exact failsWith_of_checkLipschitz counter count present ((sized size).2 nonpositive)
  · intro size
    have present : L.isAbsent = false := by
      cases L with
      | absent => cases size
      | _ => rfl
    exact failsWith_of_checkLipschitz counter count present (unsized size)

/-- Two in single precision is accepted, and minus two is not. -/
theorem single_constants_decide :
    let number (i : Int) : Value := .scalar (.real .single) (.real (Binary.ofInt .single i))
    make (number 2) (.bool true) .absent (.int 3) (.bool false) none =
        .ok ⟨number 2, .bool true, .absent, .int 3, .bool false, none⟩ ∧
      make (number (-2)) (.bool true) .absent (.int 3) (.bool false) none =
        .error (.invalidOptions (.lipschitz "np.float32(-2.0)")) := by
  intro number
  have decides (i : Int) := constant_decides (L := number i) ⟨_, rfl⟩ (.inl rfl : IsCount 1 .absent)
    (.inr ⟨3, rfl, by decide⟩ : IsCount 0 (.int 3))
  have positive : (number 2).IsPositive := (isPositive_scalar_real _ _).mpr (by decide)
  have negative : ¬ (number (-2)).IsPositive := mt (isPositive_scalar_real _ _).mp (by decide)
  have shown : refusal .lipschitz (number (-2)) =
      .invalidOptions (.lipschitz "np.float32(-2.0)") := by
    decide +kernel
  refine ⟨((decides 2).1 (.inr ⟨rfl, positive⟩)).1 _ _, ?_⟩
  rw [← shown]
  exact ((decides (-2)).2.2.2.1 rfl rfl negative).made _ _ _

/-- An integer beyond 64 bits and the ratios are not judged, the positive ones as little as the
others. -/
theorem unsized_constants_are_not_judged :
    let large : Value := .int (2 ^ 64)
    let below : Value := .fraction (-1) 2
    large.IsPositive ∧ ¬ below.IsPositive ∧
      FailsWith large .absent (.int 3) .operandTypes ∧
      FailsWith below .absent (.int 3) .operandTypes := by
  refine ⟨⟨2 ^ 64, by norm_num [rational?], by norm_num⟩, ?_, ?_, ?_⟩
  · rintro ⟨q, number, positive⟩
    cases number
    exact absurd positive (by norm_num)
  all_goals exact ⟨fun _ _ _ => rfl, fun _ _ _ _ _ => rfl, fun _ => rfl⟩

end FistaOptions

end ProxGrad
