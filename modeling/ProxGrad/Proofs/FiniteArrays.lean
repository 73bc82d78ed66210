import Mathlib.Tactic.NormNum
import ProxGrad.Proofs.ArrayForms

/-!
# The check of arrays

A value is accepted as a finite floating array, as itself where it is one already, or refused with
its defect. One kind of fault is left beside that: where a type is asked for, a number without a
finite nearest one in it overflows.
-/

set_option autoImplicit false

namespace ProxGrad

namespace Value

/-- What a caller may ask for: no type, or the name of a floating one. -/
inductive Asks (v : Value) : Value → Option TypeRequest → Prop
  | nothing : Asks v .absent none
  | floating {written : String} {r : TypeRequest} (read : requestOf? written v = some r)
      (floating : r.dtype.isInexact = true) : Asks v (.text written) (some r)

/-- A floating array with finite entries, of the type that is asked for if there is one. -/
structure Answers (asked : Option TypeRequest) (a : NDArray) : Prop where
  floating : a.dtype.isInexact = true
  finite : ∀ x ∈ a.data.entries, x.isFinite = true
  requested : ∀ r ∈ asked, a.dtype = r.dtype

variable {v requested : Value} {asked : Option TypeRequest} {name : String}

theorem finiteArrayOf?_of_asks (asks : v.Asks requested asked) (name : String) :
    v.finiteArrayOf? name requested = finiteArrayAs? name asked v := by
  cases asks with
  | nothing => rfl
  | floating read floating => rw [finiteArrayOf?, read]

theorem isInexact_of_asks (asks : v.Asks requested asked) {r : TypeRequest} (member : r ∈ asked) :
    r.dtype.isInexact = true := by
  cases asks with
  | nothing => cases member
  | floating read floating =>
    cases member
    exact floating

/-- The faults of an array form, in an asked type or in the one found. -/
def Leaks (asked : Option TypeRequest) (v : Value) (fault : Fault) : Prop :=
  fault.IsConversion ∨ fault = .overflow ∧ ∃ r ∈ asked, ∃ w ∈ v.leaves, w.TooLarge r.dtype

theorem entered_of_asks (asks : v.Asks requested asked) :
    Entered (Leaks asked v) ((asked.map (·.dtype)).getD (joinTypes v.entryTypes)) v := by
  intro w member
  obtain ⟨leaf, type⟩ := leaf_of_mem_leaves member
  cases asks with
  | nothing =>
    have fits := DType.fits_joinTypes type (DType.fits_ownType w leaf)
    exact (outcome_entryAs_of_fits fits leaf).mono (fun _ => .inl) fun _ => id
  | @floating written r read floating =>
    have converts := converts_entryAs floating w leaf
    change Outcome _ _ (entryAs r.dtype w)
    cases outcome : entryAs r.dtype w with
    | ok y => trivial
    | error fault =>
      rw [outcome] at converts
      cases converts with
      | refused => exact .inl ⟨_, rfl⟩
      | exceeds beyond => exact .inr ⟨rfl, r, rfl, w, member, beyond⟩

theorem outcome_toArray_of_asks (asks : v.Asks requested asked) :
    Outcome (Leaks asked v) (fun a => ∀ r ∈ asked, a.dtype = r.dtype)
      (v.toArray (asked.map (·.dtype))) := by
  have unlike : asked.map (·.dtype) ≠ some .object := by
    intro same
    obtain ⟨r, member, object⟩ := Option.map_eq_some_iff.mp same
    have floating := isInexact_of_asks asks member
    rw [object] at floating
    cases floating
  refine (outcome_toArray (fun defect => .inl ⟨defect, rfl⟩) unlike (entered_of_asks asks)).mono
    (fun _ => id) fun a dtype r member => ?_
  rw [dtype, Option.mem_def.mp member]
  rfl

/-! ## The parts of the check -/

/-- The check of an array form. -/
def checkForm (name : String) (asked : Option TypeRequest) (a : NDArray) : Except Fault Unit := do
  if !a.dtype.isInexact then
    throw (.invalidArray name (.notFloating ((asked.map (·.name)).getD a.dtype.name)))
  if !a.allFinite then throw (.invalidArray name .notFinite)

/-- The acceptance of what has first to be converted. -/
def acceptConverted (name : String) (asked : Option TypeRequest) (v : Value) :
    Except Fault (Option NDArray) :=
  match v.toArray (asked.map (·.dtype)) with
  | .ok a => do checkForm name asked a; return some a
  | .error (.conversion defect) => throw (.invalidArray name (.conversion defect))
  | .error fault => throw fault

theorem finiteArrayAs?_eq (name : String) (asked : Option TypeRequest) (v : Value) :
    finiteArrayAs? name asked v =
      match v with
      | .array a =>
        if asked.all fun r => r.native && r.dtype == a.dtype then do
          checkForm name asked a
          return none
        else acceptConverted name asked v
      | _ => acceptConverted name asked v := by
  cases v <;> rfl

/-- The faults that leave the check. -/
def Refuses (name : String) (asked : Option TypeRequest) (v : Value) (fault : Fault) : Prop :=
  (∃ defect, fault = .invalidArray name defect) ∨
    fault = .overflow ∧ ∃ r ∈ asked, ∃ w ∈ v.leaves, w.TooLarge r.dtype

theorem outcome_checkForm (name : String) (asked : Option TypeRequest) (v : Value) {a : NDArray}
    (requested : ∀ r ∈ asked, a.dtype = r.dtype) :
    Outcome (Refuses name asked v) (fun _ => Answers asked a) (checkForm name asked a) := by
  unfold checkForm
  dsimp only
  split_ifs with integral infinite infinite
  · exact .inl ⟨_, rfl⟩
  · exact .inl ⟨_, rfl⟩
  · exact .inl ⟨_, rfl⟩
  · refine ⟨by simpa using integral, ?_, requested⟩
    have finite : a.allFinite = true := by simpa using infinite
    exact List.all_eq_true.mp finite

theorem checkForm_of_answers {a : NDArray} (answers : Answers asked a) (name : String) :
    checkForm name asked a = .ok () := by
  have finite : a.allFinite = true := List.all_eq_true.mpr answers.finite
  simp [checkForm, answers.floating, finite, pure, Except.pure]

theorem outcome_acceptConverted (asks : v.Asks requested asked) (name : String) :
    Outcome (Refuses name asked v) (fun found => ∃ a, found = some a ∧ Answers asked a)
      (acceptConverted name asked v) := by
  have formed := outcome_toArray_of_asks asks
  unfold acceptConverted
  split
  · next a form =>
    rw [form] at formed
    exact (outcome_checkForm name asked v formed).bind fun _ answers => ⟨a, rfl, answers⟩
  · exact .inl ⟨_, rfl⟩
  · next fault unlike form =>
    rw [form] at formed
    obtain ⟨defect, rfl⟩ | overflow := formed
    · exact absurd rfl (unlike defect)
    · exact .inr overflow

theorem acceptConverted_ne_ok (asks : v.Asks requested asked) {r : TypeRequest} (member : r ∈ asked)
    {w : Value} (leaf : w ∈ v.leaves) (large : w.TooLarge r.dtype) (found : Option NDArray) :
    acceptConverted name asked v ≠ .ok found := by
  intro accepted
  have floating := isInexact_of_asks asks member
  unfold acceptConverted at accepted
  rw [Option.mem_def.mp member] at accepted
  split at accepted
  · next a form =>
    obtain ⟨y, entered⟩ := exists_entry_of_toArray floating form w leaf
    have converts := converts_entryAs floating w (leaf_of_mem_leaves leaf).1
    rw [entered] at converts
    cases converts with
    | done small => exact small large
  · cases accepted
  · cases accepted

theorem not_tooLarge_of_sequence (d : DType) (items : List Value) :
    ¬ TooLarge d (.list items) ∧ ¬ TooLarge d (.tuple items) :=
  ⟨nofun, nofun⟩

theorem not_tooLarge_of_isInexact (d : DType) {e : DType} (floating : e.isInexact = true)
    (x : Scalar) : ¬ TooLarge d (.scalar e x) := by
  cases e with
  | real | complex => exact nofun
  | _ => cases floating

theorem acceptConverted_of_leaf (asks : v.Asks requested asked) {r : TypeRequest}
    (member : r ∈ asked) (alone : v.leaves = [v]) (large : v.TooLarge r.dtype) :
    acceptConverted name asked v = .error .overflow := by
  have leaf := (leaf_of_mem_leaves (alone ▸ List.mem_singleton_self v)).1
  have failed : entryAs r.dtype v = .error .overflow := by
    have converts := converts_entryAs (isInexact_of_asks asks member) v leaf
    generalize entryAs r.dtype v = outcome at converts
    cases converts with
    | done small | refused small => exact absurd large small
    | exceeds => rfl
  have form : v.toArray (some r.dtype) = .error .overflow := by
    refine toArray_of_leaf alone ?_ ?_ failed
    · rintro items rfl
      exact (not_tooLarge_of_sequence _ items).1 large
    · rintro items rfl
      exact (not_tooLarge_of_sequence _ items).2 large
  unfold acceptConverted
  rw [Option.mem_def.mp member, Option.map_some, form]
  rfl

/-! ## The check -/

theorem finiteArrayAs?_of_ready {a : NDArray}
    (ready : asked.all (fun r => r.native && r.dtype == a.dtype) = true) :
    finiteArrayAs? name asked (.array a) = (do checkForm name asked a; return none) := by
  rw [finiteArrayAs?_eq]
  dsimp only
  rw [if_pos ready]

theorem finiteArrayAs?_of_not_ready
    (other : ∀ a, v = .array a → asked.all (fun r => r.native && r.dtype == a.dtype) ≠ true) :
    finiteArrayAs? name asked v = acceptConverted name asked v := by
  rw [finiteArrayAs?_eq]
  cases v with
  | array a =>
    dsimp only
    rw [if_neg (other a rfl)]
  | _ => rfl

theorem ready_iff {a : NDArray} :
    asked.all (fun r => r.native && r.dtype == a.dtype) = true ↔
      ∀ r ∈ asked, r.native = true ∧ a.dtype = r.dtype := by
  cases asked with
  | none => exact iff_of_true rfl nofun
  | some r =>
    rw [Option.all_some, Bool.and_eq_true, beq_iff_eq]
    refine ⟨fun ready r' member => ?_, fun each => ?_⟩
    · obtain rfl := Option.some.inj member
      exact ⟨ready.1, ready.2.symm⟩
    · exact ⟨(each r rfl).1, (each r rfl).2.symm⟩

theorem asks_double (v : Value) : v.Asks (.text "float64") (some ⟨.float64, "float64", true⟩) := by
  refine .floating ?_ rfl
  have named : DType.ofText? "float64" = some .float64 := by decide +kernel
  have swapped : "float64".startsWith ">" = false := by decide +kernel
  rw [requestOf?, named, swapped]
  rfl

theorem infiniteFrom_double_le :
    Format.double.infiniteFrom ≤ |((10 ^ 400 : ℤ) : ℝ)| / (3 : ℕ) := by
  have power : (2 ^ 1024 * 3 : ℝ) ≤ 10 ^ 400 := by
    exact_mod_cast (by decide +kernel : 2 ^ 1024 * 3 ≤ 10 ^ 400)
  refine Format.double.infiniteFrom_lt.le.trans ?_
  rw [Int.cast_pow, abs_pow, Int.cast_ofNat, abs_of_pos (by norm_num), Nat.cast_ofNat,
    le_div_iff₀ three_pos]
  exact power

end Value

end ProxGrad
