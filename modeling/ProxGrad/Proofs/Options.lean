import ProxGrad.Options.Fista
import ProxGrad.Proofs.Lasting

/-!
# Accepted options

What holds of options whichever way they were made: the constant and the count of iterations have
passed their checks, and a history has one entry for each iteration. The loop runs to one more than
the count in the arithmetic of the count's own type, where the largest number has no successor.
-/

set_option autoImplicit false

namespace ProxGrad

/-! ## Counts of iterations -/

namespace DType

variable {bits : Nat} {n : Int}

theorem holds_signed_iff :
    holds true bits n = true ↔ -(Nat.pow 2 (bits - 1) : Int) ≤ n ∧ n < Nat.pow 2 (bits - 1) := by
  simp [holds]

theorem holds_unsigned_iff : holds false bits n = true ↔ 0 ≤ n ∧ n < Nat.pow 2 bits := by
  simp [holds]

/-- The numbers of a signed type are half of those that its bits make. -/
theorem pow_eq_double_or (bits : Nat) :
    Nat.pow 2 bits = 2 * Nat.pow 2 (bits - 1) ∨ Nat.pow 2 bits = 1 ∧ Nat.pow 2 (bits - 1) = 1 := by
  cases bits with
  | zero => exact .inr ⟨rfl, rfl⟩
  | succ bits => exact .inl (Nat.pow_succ'.trans rfl)

/-- What is in the range of an integer type is left as it is. -/
theorem wrap_of_holds (signed : Bool) (nonneg : 0 ≤ n) (held : holds signed bits n = true) :
    wrap signed bits n = n := by
  cases signed with
  | false => exact Int.emod_eq_of_lt nonneg (holds_unsigned_iff.mp held).2
  | true =>
    have range := holds_signed_iff.mp held
    have double := pow_eq_double_or bits
    have inside : n < Nat.pow 2 bits := by omega
    change Int.bmod n (Nat.pow 2 bits) = n
    rw [Int.bmod_def, Int.emod_eq_of_lt nonneg inside]
    omega

/-- The successor of the largest number of an integer type is its least number. -/
theorem wrap_succ_le_zero (signed : Bool) (nonneg : 0 ≤ n) (held : holds signed bits n = true)
    (largest : holds signed bits (n + 1) = false) : wrap signed bits (n + 1) ≤ 0 := by
  have beyond : ¬ holds signed bits (n + 1) = true := by simp [largest]
  cases signed with
  | false =>
    rw [holds_unsigned_iff] at held beyond
    have last : n + 1 = Nat.pow 2 bits := by omega
    change (n + 1) % (Nat.pow 2 bits : Int) ≤ 0
    rw [last, Int.emod_self]
  | true =>
    rw [holds_signed_iff] at held beyond
    have last : n + 1 = Nat.pow 2 (bits - 1) := by omega
    have double := pow_eq_double_or bits
    change Int.bmod (n + 1) (Nat.pow 2 bits) ≤ 0
    rw [Int.bmod_def, last]
    rcases double with double | ⟨one, one'⟩
    · have positive : 0 < Nat.pow 2 (bits - 1) := Nat.pow_pos (by decide)
      rw [Int.emod_eq_of_lt (by omega) (by omega)]
      omega
    · rw [one, one']
      decide

end DType

/-- Whether a number with an integer type is in the range of that type. -/
def Value.isInRange : Value → Bool
  | .scalar (.int signed bits) (.int n) => DType.holds signed bits n
  | _ => true

/-- Whether a number with an integer type is the largest of that type. -/
def Value.isLargest : Value → Bool
  | .scalar (.int signed bits) (.int n) => !DType.holds signed bits (n + 1)
  | _ => false

namespace FistaOptions

/-- The number of iterations that a run makes is the count, unless that is the largest number of its
type. -/
theorem loopCount_eq {v : Value} {n : Int} (counted : v.integer? = some n) (nonneg : 0 ≤ n)
    (inRange : v.isInRange = true) :
    loopCount v = some (if v.isLargest then 0 else n.toNat) := by
  cases v with
  | int i =>
    cases counted
    rfl
  | scalar d x =>
    cases d with
    | int signed bits =>
      cases x with
      | int i =>
        cases counted
        rw [loopCount, Value.isLargest]
        cases within : DType.holds signed bits (n + 1) with
        | true =>
          rw [DType.wrap_of_holds signed (by omega) within]
          simp
        | false =>
          have least := DType.wrap_succ_le_zero signed nonneg inRange within
          simp only [Bool.not_false, ↓reduceIte, Option.some.injEq]
          omega
      | _ => cases counted
    | _ => cases counted
  | _ => cases counted

/-! ## Ways of making options -/

/-- Options that were made on the way to a memory: by giving all fields, by the function that
allocates a history, or from others by rebinding the constant. -/
inductive Made : FistaOptions → Memory Value → Prop
  | constructed {lipschitz accelerated resetCounter iterations verbose history o m}
      (given : ∀ cell content, history = some (cell, content) → m.content cell = some content)
      (made : make lipschitz accelerated resetCounter iterations verbose history = .ok o) :
      Made o m
  | built {space lipschitz accelerated resetCounter iterations verbose recorded o m m'}
      (made : (build space lipschitz accelerated resetCounter iterations verbose
        recorded).outcome m = (.ok o, m')) :
      Made o m'
  | rebound {o o' lipschitz m} (made : Made o m) (bound : o.withLipschitz lipschitz = .ok o') :
      Made o' m
  | later {o m m'} (made : Made o m) (kept : m.KeepsArrays m') : Made o m'

/-- What every check of options ensures. -/
structure Sound (o : FistaOptions) (m : Memory Value) : Prop where
  lipschitz : o.lipschitz.isAbsent = false → checkLipschitz o.lipschitz = .ok ()
  iterations : ∀ n, o.iterations.integer? = some n → 0 ≤ n
  history : ∀ h, o.history = some h →
    ∃ d n, o.iterations.integer? = some n ∧ m.Holds h d [n.toNat]

theorem exists_refuse_eq_error (defect : String → OptionsDefect) (v : Value) :
    ∃ fault, refuse defect v = .error fault := by
  unfold refuse
  cases v.written? <;> exact ⟨_, rfl⟩

theorem checkCount_eq_ok {least n : Int} {defect : String → OptionsDefect} {v : Value}
    (checked : checkCount least defect v = .ok ()) (counted : v.integer? = some n) : least ≤ n := by
  have present : v.isAbsent = false := by
    cases v with
    | absent => cases counted
    | _ => rfl
  rw [checkCount, present, counted] at checked
  split at checked
  case isTrue within => simpa using within
  case isFalse =>
    obtain ⟨fault, refused⟩ := exists_refuse_eq_error defect v
    cases refused.symm.trans checked

theorem checkParameters_eq_ok {lipschitz resetCounter iterations : Value}
    (checked : checkParameters lipschitz resetCounter iterations = .ok ()) :
    (lipschitz.isAbsent = false → checkLipschitz lipschitz = .ok ()) ∧
      checkCount 1 .resetCounter resetCounter = .ok () ∧
      checkCount 0 .iterations iterations = .ok () := by
  unfold checkParameters at checked
  cases present : lipschitz.isAbsent with
  | true =>
    rw [present] at checked
    obtain ⟨_, first, last⟩ := exists_of_bind_eq_ok
      (a := checkCount 1 .resetCounter resetCounter) checked
    exact ⟨fun impossible => (by cases impossible), first, last⟩
  | false =>
    rw [present] at checked
    obtain ⟨_, constant, rest⟩ := exists_of_bind_eq_ok (a := checkLipschitz lipschitz) checked
    obtain ⟨_, first, last⟩ := exists_of_bind_eq_ok
      (a := checkCount 1 .resetCounter resetCounter) rest
    exact ⟨fun _ => constant, first, last⟩

theorem fitsHistory_eq_true {iterations content : Value}
    (fits : fitsHistory iterations content = true) :
    ∃ a n, content = .array a ∧ iterations.integer? = some n ∧ a.shape = [n.toNat] := by
  cases content with
  | array a =>
    obtain ⟨n, counted, sides⟩ := (Option.any_eq_true _ _).mp fits
    refine ⟨a, n, rfl, counted, ?_⟩
    have same : a.shape.map Int.ofNat = [n] := by simpa using sides
    obtain ⟨k, one, rfl⟩ := List.map_eq_singleton_iff.mp same
    exact one
  | _ => cases fits

theorem sound_of_make {lipschitz accelerated resetCounter iterations verbose : Value}
    {history : Option (Cell × Value)} {o : FistaOptions} {m : Memory Value}
    (given : ∀ cell a, history = some (cell, .array a) → m.content cell = some (.array a))
    (made : make lipschitz accelerated resetCounter iterations verbose history = .ok o) :
    o.Sound m := by
  obtain ⟨_, checked, rest⟩ := exists_of_bind_eq_ok made
  obtain ⟨constant, -, last⟩ := checkParameters_eq_ok checked
  cases history with
  | none =>
    cases rest
    exact ⟨constant, fun _ => checkCount_eq_ok last, fun h chosen => by cases chosen⟩
  | some recorded =>
    obtain ⟨cell, content⟩ := recorded
    dsimp only at rest
    cases fits : fitsHistory iterations content with
    | false =>
      rw [fits] at rest
      obtain ⟨_, -, refused⟩ := exists_of_bind_eq_ok (a := iterations.plain?) rest
      cases refused
    | true =>
      rw [fits] at rest
      cases rest
      refine ⟨constant, fun _ => checkCount_eq_ok last, ?_⟩
      rintro _ ⟨⟩
      obtain ⟨a, n, rfl, counted, side⟩ := fitsHistory_eq_true fits
      exact ⟨a.dtype, n, counted, a, given cell _ rfl, rfl, side⟩

theorem integer?_literalCount (v : Value) : (literalCount v).integer? = v.integer? := by
  rw [literalCount]
  cases v.integer? <;> rfl

theorem shape_of_newHistory {space : Option Nat} {n : Int} {lipschitz : Value} {history : NDArray}
    (allocated : newHistory space n lipschitz = .ok history) : history.shape = [n.toNat] := by
  rw [newHistory] at allocated
  split_ifs at allocated
  cases allocated
  rfl

theorem dtype_of_newHistory {space : Option Nat} {n : Int} {lipschitz : Value} {history : NDArray}
    (allocated : newHistory space n lipschitz = .ok history) :
    history.dtype = lipschitz.bufferType := by
  rw [newHistory] at allocated
  split_ifs at allocated
  cases allocated
  rfl

/-- Options that were built have the given constant, the counts as literals, and a new history if
any. -/
theorem exists_of_build_eq_ok {space : Option Nat}
    {lipschitz accelerated resetCounter iterations verbose recordHistory : Value}
    {o : FistaOptions} {m m' : Memory Value}
    (made : (build space lipschitz accelerated resetCounter iterations verbose
      recordHistory).outcome m = (.ok o, m')) :
    checkParameters lipschitz resetCounter iterations = .ok () ∧ o.lipschitz = lipschitz ∧
      o.resetCounter = literalCount resetCounter ∧ o.iterations = literalCount iterations ∧
      ∀ h, o.history = some h →
        ∃ d n, iterations.integer? = some n ∧ m'.Holds h d [n.toNat] := by
  obtain ⟨_, _, checks, afterChecks⟩ := Action.outcome_bind_eq_ok made
  obtain ⟨checked, rfl⟩ := Action.outcome_lift_eq_ok checks
  obtain ⟨recorded, _, asked, afterAsked⟩ := Action.outcome_bind_eq_ok afterChecks
  obtain ⟨_, rfl⟩ := Action.outcome_lift_eq_ok asked
  refine ⟨checked, ?_⟩
  -- Whatever the history is, the fields that are checked are the given ones.
  have finished {history : Option Cell} {m : Memory Value}
      (rest : (do
        let accelerated ← Action.lift accelerated.truth?
        let verbose ← Action.lift verbose.truth?
        return { lipschitz, accelerated := .bool accelerated,
                 resetCounter := literalCount resetCounter,
                 iterations := literalCount iterations, verbose := .bool verbose,
                 history } : Action Value FistaOptions).outcome m = (.ok o, m'))
      (sound : ∀ h, history = some h →
        ∃ d n, iterations.integer? = some n ∧ m.Holds h d [n.toNat]) :
      o.lipschitz = lipschitz ∧ o.resetCounter = literalCount resetCounter ∧
        o.iterations = literalCount iterations ∧ ∀ h, o.history = some h →
          ∃ d n, iterations.integer? = some n ∧ m'.Holds h d [n.toNat] := by
    obtain ⟨_, _, flag, afterFlag⟩ := Action.outcome_bind_eq_ok rest
    obtain ⟨_, rfl⟩ := Action.outcome_lift_eq_ok flag
    obtain ⟨_, _, other, finish⟩ := Action.outcome_bind_eq_ok afterFlag
    obtain ⟨_, rfl⟩ := Action.outcome_lift_eq_ok other
    cases finish
    exact ⟨rfl, rfl, rfl, sound⟩
  dsimp only at afterAsked
  split at afterAsked
  case h_1 _ n counted _ =>
    obtain ⟨history, m₁, chosen, rest⟩ := Action.outcome_bind_eq_ok afterAsked
    rw [map_eq_pure_bind] at chosen
    obtain ⟨c, _, allocates, finish⟩ := Action.outcome_bind_eq_ok chosen
    obtain ⟨buffer, _, asked, allocated⟩ := Action.outcome_bind_eq_ok allocates
    obtain ⟨room, rfl⟩ := Action.outcome_lift_eq_ok asked
    cases allocated
    cases finish
    refine finished rest ?_
    rintro _ ⟨⟩
    exact ⟨buffer.dtype, n, counted, buffer, Memory.content_push_next _ _, rfl,
      shape_of_newHistory room⟩
  case h_2 =>
    exact finished afterAsked fun h chosen => by cases chosen

theorem sound_of_build {space : Option Nat}
    {lipschitz accelerated resetCounter iterations verbose recordHistory : Value}
    {o : FistaOptions} {m m' : Memory Value}
    (made : (build space lipschitz accelerated resetCounter iterations verbose
      recordHistory).outcome m = (.ok o, m')) :
    o.Sound m' := by
  obtain ⟨checked, lipschitz, -, iterations, history⟩ := exists_of_build_eq_ok made
  obtain ⟨constant, -, last⟩ := checkParameters_eq_ok checked
  refine ⟨lipschitz ▸ constant, ?_, ?_⟩
  · rw [iterations, integer?_literalCount]
    exact fun _ => checkCount_eq_ok last
  · rw [iterations, integer?_literalCount]
    exact history

theorem sound_of_made {o : FistaOptions} {m : Memory Value} (made : o.Made m) : o.Sound m := by
  induction made with
  | constructed given made => exact sound_of_make (fun cell a => given cell (.array a)) made
  | built made => exact sound_of_build made
  | rebound made bound ih =>
    obtain ⟨_, checked, rebinds⟩ := exists_of_bind_eq_ok bound
    cases rebinds
    exact ⟨fun _ => checked, ih.iterations, ih.history⟩
  | later made kept ih =>
    refine ⟨ih.lipschitz, ih.iterations, fun h chosen => ?_⟩
    obtain ⟨d, n, counted, holds⟩ := ih.history h chosen
    exact ⟨d, n, counted, kept _ _ _ holds⟩

/-! ## Constants -/

theorem checkLipschitz_eq_ok {v : Value} (checked : checkLipschitz v = .ok ()) :
    v.isReal = true ∧ v.isFinitePositive? = .ok true := by
  obtain ⟨fault, refused⟩ := exists_refuse_eq_error .lipschitz v
  unfold checkLipschitz at checked
  cases real : v.isReal with
  | false =>
    rw [real] at checked
    cases refused.symm.trans checked
  | true =>
    rw [real] at checked
    obtain ⟨positive, asked, rest⟩ := exists_of_bind_eq_ok (a := v.isFinitePositive?) checked
    cases positive with
    | false => cases refused.symm.trans rest
    | true => exact ⟨rfl, asked⟩

theorem natAbs_lt_of_isFinitePositive? {i : Int} {positive : Bool}
    (asked : (Value.int i).isFinitePositive? = .ok positive) : i.natAbs < 2 ^ 64 := by
  rw [Value.isFinitePositive?] at asked
  split at asked
  case isTrue within =>
    rw [Bool.or_eq_true, DType.holds_signed_iff, DType.holds_unsigned_iff] at within
    have word : Nat.pow 2 64 = 2 ^ 64 := rfl
    have half : Nat.pow 2 (64 - 1) = 2 ^ 63 := rfl
    omega
  case isFalse => cases asked

/-- An accepted constant has a value in every real type. -/
theorem exists_realScalar {v : Value} (checked : checkLipschitz v = .ok ()) {a : NDArray}
    (floating : a.dtype.isInexact = true) :
    ∃ r, Calculus.realScalar (.array a) v = .ok r ∧ r.IsArray a.dtype.realPart [] := by
  obtain ⟨real, positive⟩ := checkLipschitz_eq_ok checked
  obtain ⟨p, type⟩ := DType.exists_realPart floating
  have number {x : Scalar} (read : Value.entryAs (.real p) v = .ok x)
      (rounds : Calculus.realScalar (.array a) v =
        (do return Value.scalar a.dtype.realPart (← Value.entryAs a.dtype.realPart v))) :
      ∃ r, Calculus.realScalar (.array a) v = .ok r ∧ r.IsArray a.dtype.realPart [] := by
    rw [type, read] at rounds
    exact ⟨_, rounds, type ▸ Value.isArray_scalar (.real p) x⟩
  cases v with
  | int i => exact Value.exists_realScalar_int floating (natAbs_lt_of_isFinitePositive? positive)
  | real x => exact number rfl rfl
  | scalar e x =>
    cases e with
    | int | real => exact number rfl rfl
    | _ => cases real
  | fraction => cases positive
  | _ => cases real

end FistaOptions

end ProxGrad
