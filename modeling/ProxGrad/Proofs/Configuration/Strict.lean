import ProxGrad.Configuration.Basic
import ProxGrad.Proofs.Options.Constants
import ProxGrad.Proofs.Rounding

/-!
# Strict configurations

A mapping of names to plain values makes a configuration exactly if every name is a field and every
value is of the strict type of its field. The options that a configuration gives are those of its
fields; the check of options refuses only what the fields cannot exclude, an infinite constant.
-/

set_option autoImplicit false

namespace ProxGrad

/-! ## Plain values -/

namespace Binary

def IsDouble (x : Binary) : Prop :=
  x.convert .double = x

theorem isDouble_ofInt (i : Int) : (ofInt .double i).IsDouble :=
  convert_round (by decide) (by decide)

/-- The least positive integer that is near no number of double precision, in the middle between the
largest of these and the power of two beyond it. -/
def doubleLimit : Nat := 2 ^ 1024 - 2 ^ 970

theorem isFinite_ofInt_double_iff (n : Int) :
    (ofInt .double n).isFinite = true ↔ n.natAbs < doubleLimit := by
  have unit : Format.double.maxExponent - Format.double.precision - 1 = 970 := rfl
  have top : Format.double.maxExponent = 1024 := rfl
  rw [isFinite_ofInt_iff (by decide) (by decide), unit, top, doubleLimit]
  generalize 2 ^ 970 = half
  generalize 2 ^ 1024 = beyond
  omega

/-- A positive number, of any finite size or infinite. -/
def IsAboveZero (x : Binary) : Prop :=
  x = .infinite false ∨ ∃ q, x.rational? = some q ∧ 0 < q

theorem zero_lt_iff (x : Binary) : lt .zero x = true ↔ x.IsAboveZero := by
  unfold IsAboveZero
  rw [exists_rational_pos_iff]
  cases x with
  | nan => simp [lt, compare?, zero, isFinite]
  | infinite negative => cases negative <;> simp [lt, compare?, zero, isFinite]
  | finite negative significand exponent =>
    have size : (significand : Int) <<< (exponent - min 0 exponent).toNat =
        (significand * 2 ^ (exponent - min 0 exponent).toNat : Nat) := by
      rw [Int.shiftLeft_eq]
      norm_cast
    cases negative with
    | false =>
      simp [lt, compare?, align, zero, isFinite, isZero, isNegative, size, compare_lt_iff_lt,
        Nat.pos_iff_ne_zero]
    | true =>
      simp [lt, compare?, align, zero, isFinite, isZero, isNegative, size, compare_lt_iff_lt]

theorem isAboveZero_ofInt_iff (n : Int) : (ofInt .double n).IsAboveZero ↔ 0 < n := by
  rw [← zero_lt_iff]
  constructor
  · intro above
    by_contra least
    rcases Int.lt_or_eq_of_le (Int.not_lt.mp least) with negative | rfl
    · have sign : decide (n < 0) = true := by simpa using negative
      rcases exists_round_normal (f := .double) (by decide) (by decide) true n.natAbs 0 false
        with infinite | ⟨q, t, finite, -⟩
      · rw [ofInt, sign, infinite] at above
        cases above
      · rw [ofInt, sign, finite, zero_lt_iff, IsAboveZero, exists_rational_pos_iff] at above
        simp [isNegative] at above
    · exact absurd above (by decide)
  · intro positive
    rw [zero_lt_iff, IsAboveZero, exists_rational_pos_iff]
    rcases ofInt_of_pos (f := .double) (by decide) (by decide) positive
      with infinite | ⟨q, t, finite, nonzero⟩
    · exact .inl infinite
    · rw [finite]
      simpa [isFinite, isZero, isNegative] using nonzero

end Binary

namespace Value

/-- The values of a document: nothing, truth values, integers, numbers of double precision, text,
sequences and mappings, and what is known by its type alone. -/
def IsPlain : Value → Prop
  | .real x => x.IsDouble
  | .absent | .bool _ | .int _ | .text _ | .brokenText _ | .list _ | .dict _ | .other .. => True
  | _ => False

end Value

namespace Configuration

/-! ## Fields -/

namespace Field

/-- Values that a field takes, each with the value that it has then. An integer is taken for a
constant where a number of double precision is near it. -/
inductive Takes : Field → Value → Value → Prop
  | noConstant : Takes .lipschitz .absent .absent
  | constant {x : Binary} (positive : x.IsAboveZero) : Takes .lipschitz (.real x) (.real x)
  | wholeConstant {n : Int} (positive : 0 < n) (inRange : n < Binary.doubleLimit) :
      Takes .lipschitz (.int n) (.real (Binary.ofInt .double n))
  | noCounter : Takes .resetCounter .absent .absent
  | counter {n : Int} (positive : 0 < n) : Takes .resetCounter (.int n) (.int n)
  | noCount : Takes .iterations .absent .absent
  | count {n : Int} (nonnegative : 0 ≤ n) : Takes .iterations (.int n) (.int n)
  | accelerated (b : Bool) : Takes .accelerated (.bool b) (.bool b)
  | verbose (b : Bool) : Takes .verbose (.bool b) (.bool b)
  | history (b : Bool) : Takes .history (.bool b) (.bool b)

theorem toLiteral_real {x : Binary} (double : x.IsDouble) : (Value.real x).toLiteral = .ok x := by
  change Except.ok (x.convert .double) = _
  rw [double]

theorem toLiteral_int_eq_ok_iff {n : Int} {x : Binary} :
    (Value.int n).toLiteral = .ok x ↔
      n.natAbs < Binary.doubleLimit ∧ x = Binary.ofInt .double n := by
  rw [← Binary.isFinite_ofInt_double_iff]
  have double := Binary.isDouble_ofInt n
  change Value.toLiteral.literalOf (Scalar.realInRange .double (Binary.ofInt .double n)) = _ ↔ _
  rcases Binary.exists_round_normal (f := .double) (by decide) (by decide) (n < 0) n.natAbs 0 false
    with infinite | ⟨q, t, finite, -⟩
  · rw [Binary.ofInt, infinite]
    simp [Scalar.realInRange, Value.toLiteral.literalOf, Binary.isFinite]
  · change (Binary.ofInt .double n).convert .double = _ at double
    rw [Binary.ofInt, finite] at double ⊢
    change Except.ok (Binary.convert .double _) = _ ↔ _
    rw [double]
    constructor
    · intro read
      cases read
      exact ⟨rfl, rfl⟩
    · rintro ⟨-, rfl⟩
      rfl

theorem acceptReal_of_toLiteral {v taken : Value} {x : Binary}
    (number : acceptReal v = if Binary.lt .zero x then .ok (.real x) else .error .notPositive) :
    acceptReal v = .ok taken ↔ x.IsAboveZero ∧ taken = .real x := by
  rw [number, ← Binary.zero_lt_iff]
  constructor
  · intro accepted
    split at accepted
    case isTrue positive =>
      cases accepted
      exact ⟨positive, rfl⟩
    case isFalse => cases accepted
  · rintro ⟨positive, rfl⟩
    exact if_pos positive

theorem acceptReal_eq_ok_iff {v taken : Value} (plain : v.IsPlain) :
    acceptReal v = .ok taken ↔ Takes .lipschitz v taken := by
  cases v with
  | absent =>
    constructor
    · intro accepted
      cases accepted
      exact .noConstant
    · intro takes
      cases takes
      rfl
  | real x =>
    have number := toLiteral_real plain
    rw [acceptReal_of_toLiteral (x := x) (by simp only [acceptReal, number])]
    constructor
    · rintro ⟨positive, rfl⟩
      exact .constant positive
    · intro takes
      cases takes with
      | constant positive => exact ⟨positive, rfl⟩
  | int n =>
    by_cases inRange : n.natAbs < Binary.doubleLimit
    · have number := toLiteral_int_eq_ok_iff.mpr ⟨inRange, rfl⟩
      rw [acceptReal_of_toLiteral (x := Binary.ofInt .double n) (by simp only [acceptReal, number]),
        Binary.isAboveZero_ofInt_iff]
      constructor
      · rintro ⟨positive, rfl⟩
        exact .wholeConstant positive (by omega)
      · intro takes
        cases takes with
        | wholeConstant positive => exact ⟨positive, rfl⟩
    · have refused : acceptReal (.int n) = .error .notNumber := by
        cases number : (Value.int n).toLiteral with
        | ok x => exact absurd (toLiteral_int_eq_ok_iff.mp number).1 inRange
        | error => simp only [acceptReal, number]
      rw [refused]
      constructor
      · intro accepted
        cases accepted
      · intro takes
        cases takes with
        | wholeConstant positive within => omega
  | bool | text | brokenText | list | dict | other =>
    constructor
    · intro accepted
      cases accepted
    · intro takes
      cases takes
  | complex | tuple | fraction | decimal | scalar | array => cases plain

theorem acceptCount_eq_ok_iff {least : Int} {below : FieldDefect} {v taken : Value} :
    acceptCount least below v = .ok taken ↔
      taken = v ∧ (v = .absent ∨ ∃ n, v = .int n ∧ least ≤ n) := by
  cases v with
  | absent => simp [acceptCount, eq_comm]
  | int n =>
    rw [acceptCount]
    split
    case isTrue within => simp [within, eq_comm]
    case isFalse below => simpa using fun _ => Int.not_le.mp below
  | _ => simp [acceptCount]

theorem acceptFlag_eq_ok_iff {v taken : Value} :
    acceptFlag v = .ok taken ↔ taken = v ∧ ∃ b, v = .bool b := by
  cases v with
  | bool b => simp [acceptFlag, eq_comm]
  | _ => simp [acceptFlag]

theorem accept_eq_ok_iff {field : Field} {v taken : Value} (plain : v.IsPlain) :
    field.accept v = .ok taken ↔ field.Takes v taken := by
  cases field with
  | lipschitz => exact acceptReal_eq_ok_iff plain
  | resetCounter =>
    rw [accept, acceptCount_eq_ok_iff]
    constructor
    · rintro ⟨rfl, rfl | ⟨n, rfl, positive⟩⟩
      · exact .noCounter
      · exact .counter positive
    · intro takes
      cases takes with
      | noCounter => exact ⟨rfl, .inl rfl⟩
      | counter positive => exact ⟨rfl, .inr ⟨_, rfl, positive⟩⟩
  | iterations =>
    rw [accept, acceptCount_eq_ok_iff]
    constructor
    · rintro ⟨rfl, rfl | ⟨n, rfl, nonnegative⟩⟩
      · exact .noCount
      · exact .count nonnegative
    · intro takes
      cases takes with
      | noCount => exact ⟨rfl, .inl rfl⟩
      | count nonnegative => exact ⟨rfl, .inr ⟨_, rfl, nonnegative⟩⟩
  | accelerated | verbose | history =>
    rw [accept, acceptFlag_eq_ok_iff]
    constructor
    · rintro ⟨rfl, b, rfl⟩
      constructor
    · intro takes
      cases takes
      exact ⟨rfl, _, rfl⟩

theorem name_injective : Function.Injective name := by
  intro first second same
  cases first <;> cases second <;> first | rfl | exact absurd same (by decide)

end Field

/-! ## Mappings -/

def IsMapping (data : List Entry) : Prop :=
  (data.filterMap Prod.fst).Nodup

instance (data : List Entry) : Decidable (IsMapping data) :=
  inferInstanceAs (Decidable (List.Nodup _))

variable {data : List Entry} {name : String} {field : Field} {v taken : Value}

theorem lookup_eq_some_iff (mapping : IsMapping data) :
    data.lookup (some name) = some v ↔ (some name, v) ∈ data := by
  induction data with
  | nil => simp
  | cons entry data ih =>
    obtain ⟨key, w⟩ := entry
    cases key with
    | none => simpa [List.lookup_cons] using ih mapping
    | some other =>
      have unique := List.nodup_cons.mp mapping
      by_cases same : name = other
      · subst same
        have once : (some name, v) ∉ data := fun member =>
          unique.1 (List.mem_filterMap.mpr ⟨_, member, rfl⟩)
        simp [once, eq_comm]
      · have differs : (name == other) = false := beq_false_of_ne same
        simpa [List.lookup_cons, same, differs] using ih unique.2

/-- What a field has in the configuration of a mapping: the value that it takes of its entry, or its
initial value where it has no entry. -/
def Field.Gets (field : Field) (data : List Entry) (taken : Value) : Prop :=
  (∃ v, (some field.name, v) ∈ data ∧ field.Takes v taken) ∨
    (∀ v, (some field.name, v) ∉ data) ∧ taken = field.initial

theorem read_eq_ok_iff (mapping : IsMapping data) (plain : ∀ entry ∈ data, entry.2.IsPlain) :
    field.read data = .ok taken ↔ field.Gets data taken := by
  unfold Field.read Field.Gets
  cases found : data.lookup (some field.name) with
  | some v =>
    have entry := (lookup_eq_some_iff mapping).mp found
    have only {w : Value} (other : (some field.name, w) ∈ data) : w = v := by
      rw [← lookup_eq_some_iff mapping, found] at other
      exact (Option.some.inj other).symm
    dsimp only
    rw [Field.accept_eq_ok_iff (plain _ entry)]
    constructor
    · intro takes
      exact .inl ⟨v, entry, takes⟩
    · rintro (⟨w, other, takes⟩ | ⟨missing, -⟩)
      · rwa [only other] at takes
      · exact absurd entry (missing v)
  | none =>
    have missing (v : Value) : (some field.name, v) ∉ data := by
      rw [← lookup_eq_some_iff mapping, found]
      exact nofun
    dsimp only
    constructor
    · intro read
      cases read
      exact .inr ⟨missing, rfl⟩
    · rintro (⟨v, entry, -⟩ | ⟨-, rfl⟩)
      · exact absurd entry (missing v)
      · rfl

theorem isField_eq_true_iff {key : Option String} :
    isField key = true ↔ ∃ field : Field, key = some field.name := by
  unfold isField Field.all
  constructor
  · intro named
    obtain ⟨field, -, same⟩ := List.any_eq_true.mp named
    exact ⟨field, (beq_iff_eq.mp same).symm⟩
  · rintro ⟨field, rfl⟩
    exact List.any_eq_true.mpr ⟨field, by cases field <;> decide, beq_self_eq_true _⟩

theorem defects_eq_nil_iff :
    defects data = [] ↔ (∀ field : Field, ∃ v, field.read data = .ok v) ∧
      ∀ entry ∈ data, ∃ field : Field, entry.1 = some field.name := by
  rw [defects, List.append_eq_nil_iff, List.filterMap_eq_nil_iff, List.filterMap_eq_nil_iff]
  refine and_congr ⟨fun clean field => ?_, fun reads field _ => ?_⟩
    (forall₂_congr fun ⟨key, w⟩ _ => ?_)
  · have quiet := clean field (by cases field <;> decide)
    cases read : field.read data with
    | ok v => exact ⟨v, rfl⟩
    | error defect =>
      rw [read] at quiet
      cases quiet
  · obtain ⟨v, read⟩ := reads field
    rw [read]
  · rw [← isField_eq_true_iff]
    dsimp only
    split
    case isTrue named => exact iff_of_true rfl named
    case isFalse unknown => exact iff_of_false nofun unknown

theorem ofEntries_eq_ok_iff {c : Configuration} :
    ofEntries data = .ok c ↔ defects data = [] ∧ ∀ field : Field, field.read data = .ok (c.get field) := by
  unfold ofEntries
  cases found : defects data with
  | nil =>
    have reads := (defects_eq_nil_iff.mp found).1
    constructor
    · intro made
      cases made
      refine ⟨rfl, fun field => ?_⟩
      obtain ⟨v, read⟩ := reads field
      simp only [read]
    · rintro ⟨-, read⟩
      obtain ⟨get⟩ := c
      simp only [read]
  | cons => simp

end Configuration

end ProxGrad
