import ProxGrad.Proofs.Configuration.Strict

/-!
# Options of configurations

A configuration that was made of a mapping has fields that the check of options accepts, but for an
infinite constant. Its options have these fields, and a new history where one is asked for and the
number of iterations is given.
-/

set_option autoImplicit false

namespace ProxGrad

namespace FistaOptions

variable {space : Option Nat} {L resetCounter iterations : Value}

/-- A history in double precision is allocated where its bytes are few enough to be counted and to
have space. -/
theorem newHistory_eq_ok {n : Int} (nonnegative : 0 ≤ n) (double : L.bufferType = .float64)
    (countable : 8 * n < 2 ^ 63) (room : ∀ limit, space = some limit → 8 * n ≤ limit) :
    newHistory space n L = .ok ⟨.float64, .fill [n.toNat] (.zero .float64)⟩ := by
  have bytes : (DType.float64.size : Int) = 8 := rfl
  have range : ((Nat.pow 2 (64 - 1) : Nat) : Int) = 2 ^ 63 := rfl
  have counted : DType.holds true 64 n = true := by
    rw [DType.holds_signed_iff]
    omega
  have sized : DType.holds true 64 (n * 8) = true := by
    rw [DType.holds_signed_iff]
    omega
  have granted : (space.any fun limit => n * 8 > limit) = false := by
    cases space with
    | none => rfl
    | some limit =>
      have enough := room limit rfl
      exact decide_eq_false (by omega)
  simp only [newHistory, double, bytes, counted, sized, granted, Bool.not_true, Bool.or_self,
    Bool.false_eq_true, ↓reduceIte]

theorem outcome_build (checked : checkParameters L resetCounter iterations = .ok ())
    (accelerated verbose recorded : Bool) (m : Memory Value) :
    (build space L (.bool accelerated) resetCounter iterations (.bool verbose)
      (.bool recorded)).outcome m =
      match recorded, iterations.integer? with
      | true, some n =>
        match newHistory space n L with
        | .ok a =>
          (.ok ⟨L, .bool accelerated, literalCount resetCounter, literalCount iterations,
            .bool verbose, some m.next⟩, m.push (.array a))
        | .error fault => (.error fault, m)
      | _, _ =>
        (.ok ⟨L, .bool accelerated, literalCount resetCounter, literalCount iterations,
          .bool verbose, none⟩, m) := by
  have asked : (Value.bool recorded).truth? = .ok recorded := rfl
  rw [build, checked, Action.outcome_bind_of_ok (Action.outcome_lift _ m), asked,
    Action.outcome_bind_of_ok (Action.outcome_lift _ m)]
  cases recorded with
  | false => rfl
  | true =>
    cases iterations.integer? with
    | none => rfl
    | some n =>
      cases allocated : newHistory space n L with
      | ok a =>
        simp only [allocated]
        rfl
      | error fault =>
        simp only [allocated]
        rfl

end FistaOptions

namespace Configuration

variable {data : List Entry} {taken : Value}

/-! ## Fields of a configuration -/

theorem Field.Gets.constant (gets : Field.lipschitz.Gets data taken) :
    taken = .absent ∨ ∃ x, taken = .real x ∧ x.IsAboveZero := by
  obtain ⟨v, -, takes⟩ | ⟨-, rfl⟩ := gets
  · cases takes with
    | noConstant => exact .inl rfl
    | constant positive => exact .inr ⟨_, rfl, positive⟩
    | wholeConstant positive =>
      exact .inr ⟨_, rfl, (Binary.isAboveZero_ofInt_iff _).mpr positive⟩
  · exact .inl rfl

/-- The constant is infinite only as it was given, since an integer is taken for a finite number. -/
theorem Field.Gets.eq_infinite_iff (mapping : IsMapping data)
    (gets : Field.lipschitz.Gets data taken) :
    taken = .real (.infinite false) ↔
      (some Field.lipschitz.name, .real (.infinite false)) ∈ data := by
  obtain ⟨v, entry, takes⟩ | ⟨missing, rfl⟩ := gets
  · constructor
    · intro infinite
      cases takes with
      | noConstant => cases infinite
      | constant => rwa [← infinite]
      | @wholeConstant n positive inRange =>
        have finite := (Binary.isFinite_ofInt_double_iff n).mpr (by omega)
        rw [Value.real.inj infinite] at finite
        cases finite
    · intro given
      rw [← lookup_eq_some_iff mapping] at entry given
      cases Option.some.inj (entry.symm.trans given)
      cases takes
      rfl
  · constructor
    · intro infinite
      cases infinite
    · intro given
      exact absurd given (missing _)

theorem Field.Gets.counter (gets : Field.resetCounter.Gets data taken) :
    taken = .absent ∨ ∃ n, taken = .int n ∧ 1 ≤ n := by
  obtain ⟨v, -, takes⟩ | ⟨-, rfl⟩ := gets
  · cases takes with
    | noCounter => exact .inl rfl
    | counter positive => exact .inr ⟨_, rfl, positive⟩
  · exact .inl rfl

theorem Field.Gets.count (gets : Field.iterations.Gets data taken) :
    taken = .absent ∨ ∃ n, taken = .int n ∧ 0 ≤ n := by
  obtain ⟨v, -, takes⟩ | ⟨-, rfl⟩ := gets
  · cases takes with
    | noCount => exact .inl rfl
    | count nonnegative => exact .inr ⟨_, rfl, nonnegative⟩
  · exact .inl rfl

theorem isCount_of_literal {least : Int}
    (given : taken = .absent ∨ ∃ n, taken = .int n ∧ least ≤ n) :
    taken.IsCount least ∧ FistaOptions.literalCount taken = taken := by
  obtain rfl | ⟨n, rfl, within⟩ := given
  · exact ⟨.inl rfl, rfl⟩
  · exact ⟨.inr ⟨n, rfl, within⟩, rfl⟩

theorem Field.Gets.flag {field : Field} (gets : field.Gets data taken)
    (flag : field = .accelerated ∨ field = .verbose ∨ field = .history) :
    ∃ b, taken = .bool b := by
  obtain ⟨v, -, takes⟩ | ⟨-, rfl⟩ := gets
  · rcases flag with rfl | rfl | rfl
    all_goals
      cases takes
      exact ⟨_, rfl⟩
  · rcases flag with rfl | rfl | rfl <;> exact ⟨_, rfl⟩

/-! ## Options -/

/-- The number of entries of the history that a configuration asks for, if it asks for one. -/
def historySize? (c : Configuration) : Option Nat :=
  match c.get .history, c.get .iterations with
  | .bool true, .int n => some n.toNat
  | _, _ => none

def options (c : Configuration) (history : Option Cell) : FistaOptions :=
  ⟨c.get .lipschitz, c.get .accelerated, c.get .resetCounter, c.get .iterations, c.get .verbose,
    history⟩

/-- What a configuration gives in a memory: options with its fields, and a new array in double
precision for a history that is asked for. -/
inductive Gives (c : Configuration) (m : Memory Value) : FistaOptions → Memory Value → Prop
  | withoutHistory (unasked : c.historySize? = none) : Gives c m (c.options none) m
  | withHistory {n : Nat} {a : NDArray} (asked : c.historySize? = some n)
      (double : a.dtype = .float64) (shaped : a.shape = [n]) :
      Gives c m (c.options (some m.next)) (m.push (.array a))

section

variable {space : Option Nat} {c : Configuration}
  (gets : ∀ field : Field, field.Gets data (c.get field))
include gets

/-- The check of options refuses an infinite constant, and nothing else of a configuration. -/
theorem checkParameters_fields :
    (c.get .lipschitz = .real (.infinite false) →
      FistaOptions.checkParameters (c.get .lipschitz) (c.get .resetCounter) (c.get .iterations) =
        .error (.invalidOptions (.lipschitz "inf"))) ∧
    (c.get .lipschitz ≠ .real (.infinite false) →
      FistaOptions.checkParameters (c.get .lipschitz) (c.get .resetCounter) (c.get .iterations) =
        .ok ()) := by
  have counter := (isCount_of_literal (gets .resetCounter).counter).1
  have count := (isCount_of_literal (gets .iterations).count).1
  rw [FistaOptions.checkParameters_eq counter count]
  constructor
  · intro infinite
    rw [infinite]
    rfl
  · intro finite
    obtain absent | ⟨x, real, above⟩ := (gets .lipschitz).constant
    · rw [absent]
      rfl
    · rw [real] at finite ⊢
      obtain rfl | positive := above
      · exact absurd rfl finite
      · exact ((FistaOptions.checkLipschitz_eq (v := .real x) trivial).2 rfl).1 positive

theorem outcome_toOptions_of_infinite (constant : c.get .lipschitz = .real (.infinite false))
    (m : Memory Value) :
    (c.toOptions space).outcome m = (.error (.invalidOptions (.lipschitz "inf")), m) := by
  exact FistaOptions.build_eq_error ((checkParameters_fields gets).1 constant) m

theorem exists_options_of_finite (constant : c.get .lipschitz ≠ .real (.infinite false))
    (room : ∀ n, c.historySize? = some n →
      ∃ a, FistaOptions.newHistory space n (c.get .lipschitz) = .ok a) (m : Memory Value) :
    ∃ o m', (c.toOptions space).outcome m = (.ok o, m') ∧ c.Gives m o m' := by
  have checked := (checkParameters_fields gets).2 constant
  have counter := (isCount_of_literal (gets .resetCounter).counter).2
  have count := (isCount_of_literal (gets .iterations).count).2
  have buffer : (c.get .lipschitz).bufferType = .float64 := by
    obtain absent | ⟨x, real, -⟩ := (gets .lipschitz).constant
    · rw [absent]
      rfl
    · rw [real]
      rfl
  obtain ⟨fast, accelerated⟩ := (gets .accelerated).flag (.inl rfl)
  obtain ⟨loud, verbose⟩ := (gets .verbose).flag (.inr (.inl rfl))
  obtain ⟨recorded, history⟩ := (gets .history).flag (.inr (.inr rfl))
  have same (h : Option Cell) : (⟨c.get .lipschitz, .bool fast, c.get .resetCounter,
      c.get .iterations, .bool loud, h⟩ : FistaOptions) = c.options h := by
    rw [options, accelerated, verbose]
  rw [toOptions, accelerated, verbose, history, FistaOptions.outcome_build checked, counter, count]
  simp only [same]
  cases recorded with
  | false => exact ⟨_, _, rfl, .withoutHistory (by rw [historySize?, history])⟩
  | true =>
    obtain absent | ⟨n, given, nonnegative⟩ := (gets .iterations).count
    · refine ⟨_, _, ?_, .withoutHistory (by rw [historySize?, history, absent])⟩
      rw [absent]
      rfl
    · have asked : c.historySize? = some n.toNat := by rw [historySize?, history, given]
      obtain ⟨a, allocated⟩ := room _ asked
      rw [Int.toNat_of_nonneg nonnegative] at allocated
      have double : a.dtype = .float64 := (FistaOptions.dtype_of_newHistory allocated).trans buffer
      refine ⟨_, _, ?_, .withHistory asked double (FistaOptions.shape_of_newHistory allocated)⟩
      rw [given]
      simp only [Value.integer?, allocated]

end

theorem exists_ofEntries_eq_ok_iff (mapping : IsMapping data)
    (plain : ∀ entry ∈ data, entry.2.IsPlain) :
    (∃ c, ofEntries data = .ok c) ↔
      ∀ entry ∈ data, ∃ field taken, entry.1 = some (Field.name field) ∧ field.Takes entry.2 taken := by
  constructor
  · rintro ⟨c, made⟩ ⟨key, v⟩ member
    obtain ⟨clean, reads⟩ := ofEntries_eq_ok_iff.mp made
    obtain ⟨field, rfl⟩ := (defects_eq_nil_iff.mp clean).2 _ member
    obtain ⟨w, entry, takes⟩ | ⟨missing, -⟩ := (read_eq_ok_iff mapping plain).mp (reads field)
    · rw [← lookup_eq_some_iff mapping] at entry member
      cases Option.some.inj (entry.symm.trans member)
      exact ⟨field, _, rfl, takes⟩
    · exact absurd member (missing v)
  · intro taken
    have clean : defects data = [] := by
      refine defects_eq_nil_iff.mpr ⟨fun field => ?_, fun entry member => ?_⟩
      · cases found : data.lookup (some field.name) with
        | none =>
          refine ⟨field.initial, ?_⟩
          rw [Field.read, found]
        | some v =>
          have member := (lookup_eq_some_iff mapping).mp found
          obtain ⟨other, w, named, takes⟩ := taken _ member
          cases Field.name_injective (Option.some.inj named)
          exact ⟨w, (read_eq_ok_iff mapping plain).mpr (.inl ⟨v, member, takes⟩)⟩
      · obtain ⟨field, w, named, -⟩ := taken entry member
        exact ⟨field, named⟩
    unfold ofEntries
    rw [clean]
    exact ⟨_, rfl⟩

/-- A mapping of names to plain values makes a configuration exactly if its fields take all values.
The configuration has what they take, and initial values besides. Its options have the same fields,
and a history of its own where one is asked for and the number of iterations is given. There are no
options only for a constant that was given as infinite, as long as the allocation of a history
succeeds. -/
theorem strict_mappings_make_options (space : Option Nat) (mapping : IsMapping data)
    (plain : ∀ entry ∈ data, entry.2.IsPlain) :
    ((∃ c, ofEntries data = .ok c) ↔
      ∀ entry ∈ data, ∃ field taken, entry.1 = some (Field.name field) ∧
        field.Takes entry.2 taken) ∧
    ∀ c, ofEntries data = .ok c →
      (∀ field : Field, field.Gets data (c.get field)) ∧
      ((some Field.lipschitz.name, .real (.infinite false)) ∈ data → ∀ m,
        (c.toOptions space).outcome m = (.error (.invalidOptions (.lipschitz "inf")), m)) ∧
      ((some Field.lipschitz.name, .real (.infinite false)) ∉ data →
        (∀ n, c.historySize? = some n →
          ∃ a, FistaOptions.newHistory space n (c.get .lipschitz) = .ok a) → ∀ m, ∃ o m',
        (c.toOptions space).outcome m = (.ok o, m') ∧ c.Gives m o m') := by
  refine ⟨exists_ofEntries_eq_ok_iff mapping plain, fun c made => ?_⟩
  have gets (field : Field) : field.Gets data (c.get field) :=
    (read_eq_ok_iff mapping plain).mp ((ofEntries_eq_ok_iff.mp made).2 field)
  rw [← (gets .lipschitz).eq_infinite_iff mapping]
  exact ⟨gets, outcome_toOptions_of_infinite gets, exists_options_of_finite gets⟩

/-- An integer is taken for a constant and a history is made, and an infinite constant is a field
but no option. -/
theorem whole_constant_makes_options :
    (let data : List Entry :=
        [(some "fun_history", .bool true), (some "lipschitz_constant", .int 3), (some "niter", .int 2)]
      ∃ c, ofEntries data = .ok c ∧ ∀ m, ∃ o m', (c.toOptions none).outcome m = (.ok o, m') ∧
        o = ⟨.real (Binary.ofInt .double 3), .bool true, .absent, .int 2, .bool false, some m.next⟩ ∧
        m'.Holds m.next .float64 [2]) ∧
    (let data : List Entry := [(some "lipschitz_constant", .real (.infinite false))]
      ∃ c, ofEntries data = .ok c ∧
        (c.toOptions none).outcome {} = (.error (.invalidOptions (.lipschitz "inf")), {})) := by
  constructor
  · intro data
    have mapping : IsMapping data := by decide
    have plain : ∀ entry ∈ data, entry.2.IsPlain := by simp [data, Value.IsPlain]
    obtain ⟨-, makes⟩ := strict_mappings_make_options none mapping plain
    have finite : (some Field.lipschitz.name, .real (.infinite false)) ∉ data := by
      simp [data, Field.name]
    refine ⟨_, rfl, fun m => ?_⟩
    obtain ⟨o, m', made, gives⟩ := (makes _ rfl).2.2 finite (fun n asked => by
      cases asked
      exact ⟨_, FistaOptions.newHistory_eq_ok (by decide) rfl (by decide) nofun⟩) m
    cases gives with
    | withoutHistory unasked => cases unasked
    | withHistory asked double shaped =>
      cases asked
      exact ⟨_, _, made, rfl, _, Memory.content_push_next m _, double, shaped⟩
  · intro data
    have mapping : IsMapping data := by decide
    have plain : ∀ entry ∈ data, entry.2.IsPlain := by
      simp [data, Value.IsPlain, Binary.IsDouble, Binary.convert]
    obtain ⟨-, makes⟩ := strict_mappings_make_options none mapping plain
    exact ⟨_, rfl, (makes _ rfl).2.1 (List.mem_singleton_self _) {}⟩

end Configuration

end ProxGrad
