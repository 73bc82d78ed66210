import ProxGrad.Proofs.Dispatch.Fallback
import ProxGrad.Proofs.FiniteArrays
import ProxGrad.Proofs.Misfit.Evaluation
import ProxGrad.Proofs.Misfit.Sides

/-!
# Construction of least-squares terms

A term is made of data that fit the rows of its operator and of sides whose count is its columns.
The count of sides that are integers is their product up to whole words, and that of others its
integer part. So all shapes of arrays with an entry for each column are accepted, and a term with
the shape of such an array can be evaluated there. But sides are accepted as well that no array has:
the gradient of such a term cannot be evaluated at all.
-/

set_option autoImplicit false

namespace ProxGrad

/-! ## Data -/

/-- An array form that is floating and finite. -/
structure Value.IsData (v : Value) (a : NDArray) : Prop where
  form : v.toArray none = .ok a
  floating : a.dtype.isInexact = true
  finite : ∀ x ∈ a.data.entries, x.isFinite = true

namespace Value

variable {v : Value} {a : NDArray} {name : String}

theorem checkForm_cases (name : String) (a : NDArray) :
    Answers none a ∧ checkForm name none a = .ok () ∨
      ¬ Answers none a ∧ ∃ defect, checkForm name none a = .error (.invalidArray name defect) := by
  have outcome := outcome_checkForm name none (.array a) (a := a) nofun
  cases check : checkForm name none a with
  | ok done =>
    rw [check] at outcome
    exact .inl ⟨outcome, rfl⟩
  | error fault =>
    rw [check] at outcome
    refine .inr ⟨fun answers => ?_, ?_⟩
    · rw [checkForm_of_answers answers name] at check
      cases check
    · obtain ⟨defect, rfl⟩ | ⟨-, r, member, -⟩ := outcome
      · exact ⟨defect, rfl⟩
      · cases member

theorem IsData.answers (data : v.IsData a) : Answers none a :=
  ⟨data.floating, data.finite, nofun⟩

/-- Data are accepted as they are, or in their array form; anything else is refused. -/
theorem finiteArray?_cases (name : String) (v : Value) :
    (∃ a, v.IsData a ∧
        (v.finiteArray? name = .ok none ∧ v = .array a ∨ v.finiteArray? name = .ok (some a))) ∨
      (∀ a, ¬ v.IsData a) ∧ ∃ defect, v.finiteArray? name = .error (.invalidArray name defect) := by
  by_cases array : ∃ a, v = .array a
  · obtain ⟨a, rfl⟩ := array
    have checked : finiteArray? name (.array a) = (do checkForm name none a; return none) :=
      finiteArrayAs?_of_ready rfl
    rw [checked]
    obtain ⟨answers, passed⟩ | ⟨unfit, defect, failed⟩ := checkForm_cases name a
    · rw [passed]
      exact .inl ⟨a, ⟨rfl, answers.floating, answers.finite⟩, .inl ⟨rfl, rfl⟩⟩
    · rw [failed]
      refine .inr ⟨fun b data => ?_, defect, rfl⟩
      cases data.form
      exact unfit data.answers
  · have converted : finiteArray? name v = acceptConverted name none v :=
      finiteArrayAs?_of_not_ready fun a same => absurd ⟨a, same⟩ array
    have formed := outcome_toArray_of_asks (.nothing : v.Asks .absent none)
    rw [converted, acceptConverted]
    rw [Option.map_none] at formed ⊢
    cases form : v.toArray none with
    | ok a =>
      obtain ⟨answers, passed⟩ | ⟨unfit, defect, failed⟩ := checkForm_cases name a
      · refine .inl ⟨a, ⟨form, answers.floating, answers.finite⟩, .inr ?_⟩
        dsimp only
        rw [passed]
        rfl
      · refine .inr ⟨fun b data => ?_, defect, ?_⟩
        · cases form.symm.trans data.form
          exact unfit data.answers
        · dsimp only
          rw [failed]
          rfl
    | error fault =>
      rw [form] at formed
      obtain ⟨defect, rfl⟩ | ⟨-, r, member, -⟩ := formed
      · refine .inr ⟨fun b data => ?_, .conversion defect, rfl⟩
        cases form.symm.trans data.form
      · cases member

end Value

theorem outcome_accept {m : Memory Value} {r : Ref Value} {v : Value}
    (seen : (Action.readRef r).outcome m = (.ok v, m)) (name : String) :
    (∃ a y, v.IsData a ∧ (GradientCheck.accept name r).outcome m = (.ok y, m) ∧
        (Action.readRef y).outcome m = (.ok (.array a), m)) ∨
      (∀ a, ¬ v.IsData a) ∧ ∃ defect,
        (GradientCheck.accept name r).outcome m = (.error (.invalidArray name defect), m) := by
  have looked : (Action.lift (Calculus.finite? name v)).outcome m =
    ((do return (← v.finiteArray? name).map Value.array), m) := rfl
  rw [GradientCheck.accept, Action.outcome_bind_of_ok seen]
  obtain ⟨a, data, ⟨found, rfl⟩ | found⟩ | ⟨unfit, defect, failed⟩ := v.finiteArray?_cases name
  · rw [found] at looked
    exact .inl ⟨a, r, data, Action.outcome_bind_of_ok looked, seen⟩
  · rw [found] at looked
    exact .inl ⟨a, .const (.array a), data, Action.outcome_bind_of_ok looked, rfl⟩
  · rw [failed] at looked
    exact .inr ⟨unfit, defect, Action.outcome_bind_of_error looked⟩

/-- An array that there can be: of few sides, with its sides and entries counted in words. -/
structure NDArray.IsPossible (a : NDArray) : Prop where
  rank : a.shape.length ≤ Outline.limit
  sides : ∀ n ∈ a.shape, n < 2 ^ 63
  entries : a.size < 2 ^ 63

namespace Session

open Act

/-! ## What is judged -/

/-- The sides that a term is given: those of a vector with an entry for each column unless there is
another shape. -/
def givenSides (w : World) (operator : LinearOperator Value) (inputShape : Handle) :
    Except Fault (List Value) :=
  if w.isAbsent inputShape then .ok [Value.int operator.columns]
  else itemsOf (w.shown inputShape)

/-- The making of a term from an operator. -/
def construct (operator : LinearOperator Value) (observed inputShape : Handle) :
    Act (Answer × Handle) := do
  let (fields, answer) ← leastSquaresFields operator observed inputShape
  return (answer, ← newInstance { cls := .leastSquares, fields })

/-- What a request for a term does once its operands are objects. -/
theorem makeLeastSquares_eq (source : OperatorSource) (observed : Operand)
    (inputShape : Option Operand) :
    makeLeastSquares source observed inputShape = (do
      let operator ← makeOperator source
      let (answer, h) ← construct operator (← operand observed) (← optional inputShape)
      return (answer, some h)) := by
  simp only [makeLeastSquares, construct, bind_assoc, pure_bind]

/-- What is found of data and sides, in the order in which they are looked at. -/
inductive Judged (operator : LinearOperator Value) (v : Value) :
    Except Fault (List Value) → Except Fault (NDArray × List Value) → Prop
  | unfit {given : Except Fault (List Value)} {defect : ArrayDefect}
      (other : ∀ a, ¬ v.IsData a) : Judged operator v given (.error (.invalidArray "y" defect))
  | size {given : Except Fault (List Value)} {a : NDArray} (data : v.IsData a)
      (other : a.size ≠ operator.rows) :
      Judged operator v given (.error (.dataSize a.size operator.rows))
  | itemless {a : NDArray} {fault : Fault} (data : v.IsData a) (rows : a.size = operator.rows) :
      Judged operator v (.error fault) (.error fault)
  | uncounted {a : NDArray} {sides : List Value} {fault : Fault} (data : v.IsData a)
      (rows : a.size = operator.rows) (count : sidesCount sides = .error fault) :
      Judged operator v (.ok sides) (.error fault)
  | miscounted {a : NDArray} {sides : List Value} {n : ℤ} (data : v.IsData a)
      (rows : a.size = operator.rows) (count : sidesCount sides = .ok n)
      (other : n ≠ operator.columns) :
      Judged operator v (.ok sides)
        (.error (.inputShape (Value.tuple sides).written operator.columns))
  | fit {a : NDArray} {sides : List Value} (data : v.IsData a) (rows : a.size = operator.rows)
      (count : sidesCount sides = .ok operator.columns) :
      Judged operator v (.ok sides) (.ok (a, sides))

theorem Judged.eq_ok {operator : LinearOperator Value} {v : Value} {sides : List Value}
    {verdict : Except Fault (NDArray × List Value)} (judged : Judged operator v (.ok sides) verdict)
    {a : NDArray} (data : v.IsData a) (rows : a.size = operator.rows)
    (count : sidesCount sides = .ok operator.columns) : verdict = .ok (a, sides) := by
  cases judged with
  | unfit other => exact absurd data (other a)
  | size data' other =>
    cases data'.form.symm.trans data.form
    exact absurd rows other
  | uncounted _ _ failed => cases count.symm.trans failed
  | miscounted _ _ counted other =>
    cases count.symm.trans counted
    exact absurd rfl other
  | fit data' =>
    cases data'.form.symm.trans data.form
    rfl

/-- The sides of a term with given data. -/
def judge (operator : LinearOperator Value) (a : NDArray) (given : Except Fault (List Value)) :
    Except Fault (List Value) := do
  if a.size ≠ operator.rows then throw (.dataSize a.size operator.rows)
  let sides ← given
  if (← sidesCount sides) ≠ (operator.columns : ℤ) then
    throw (.inputShape (Value.tuple sides).written operator.columns)
  return sides

theorem judged_of_isData (operator : LinearOperator Value) {v : Value} {a : NDArray}
    (data : v.IsData a) (given : Except Fault (List Value)) :
    Judged operator v given ((judge operator a given).map fun sides => (a, sides)) := by
  unfold judge
  by_cases rows : a.size = operator.rows
  · rw [if_neg (not_not_intro rows)]
    cases given with
    | error fault => exact .itemless data rows
    | ok sides =>
      simp only [bind, Except.bind]
      cases count : sidesCount sides with
      | error fault => exact .uncounted data rows count
      | ok n =>
        by_cases columns : n = operator.columns
        · simp only [columns, ne_eq, not_true_eq_false, if_false]
          exact .fit data rows (columns ▸ count)
        · simp only [ne_eq, columns, not_false_eq_true, if_true]
          exact .miscounted data rows count columns
  · rw [if_pos rows]
    exact .size data rows

/-- A term whose data are in a cell. -/
def madeTerm (operator : LinearOperator Value) (c : Cell) (sides : List Value) :
    LeastSquares Value where
  operator := operator
  observed := .cell c
  shaped := reshapeTo (.tuple sides)

/-- An instance of a term with its data in a cell. -/
structure Made (w : World) (h : Handle) (operator : LinearOperator Value) (a : NDArray)
    (sides : List Value) (c : Cell) : Prop where
  term : leastSquaresOf w h = .ok (madeTerm operator c sides)
  data : w.memory.content c = some (.array a)

/-- The placing of the parts of a term. -/
def placed (operator : LinearOperator Value) (y : Ref Value) (data : NDArray) (sides : List Value) :
    Act (Given × Answer) := do
  let a ← newInstance { cls := .objectClass, body := .operator operator }
  let y ← match y with
    | .cell c => pure (.data c)
    | .const v => newData v
  let shape ← newData (.tuple sides)
  return ([("A", a), ("y", y), ("input_shape", shape)],
    .leastSquares operator.rows operator.columns data.dtype data.shape sides)

variable {w : World} {operator : LinearOperator Value} {observed inputShape : Handle} {v : Value}

theorem bind_givenSides {α : Type} (next : List Value → Act α) :
    (if w.isAbsent inputShape = true then do next (← pure [Value.int operator.columns])
      else do next (← lift (itemsOf (w.shown inputShape)))) =
      (do next (← lift (givenSides w operator inputShape))) := by
  unfold givenSides
  split <;> rfl

/-- What becomes of data and sides once the data are accepted. -/
theorem outcome_fields (operator : LinearOperator Value) (inputShape : Handle) {y : Ref Value}
    {a : NDArray}
    (accepted : (GradientCheck.accept "y" (w.refOf observed)).outcome w.memory = (.ok y, w.memory))
    (kept : (Action.readRef y).outcome w.memory = (.ok (.array a), w.memory)) :
    (leastSquaresFields operator observed inputShape).outcome w =
      match judge operator a (givenSides w operator inputShape) with
      | .error fault => (.error fault, w)
      | .ok sides => (placed operator y a sides).outcome w := by
  have accepted' : (onMemory fun w => GradientCheck.accept "y" (w.refOf observed)).outcome w =
    (.ok y, w) := outcome_onMemory accepted
  have kept' : (onMemory fun _ => Action.readRef y).outcome w = (.ok (.array a), w) :=
    outcome_onMemory kept
  simp only [leastSquaresFields, outcome_bind, accepted', kept', outcome_lift, Value.array?]
  unfold judge
  split
  · rfl
  · simp only [outcome_bind, outcome_world, bind_givenSides, outcome_lift]
    cases givenSides w operator inputShape with
    | error fault => rfl
    | ok sides =>
      simp only [bind, Except.bind, pure, Except.pure]
      cases sidesCount sides with
      | error fault => rfl
      | ok n =>
        dsimp only
        split <;> rfl

theorem leastSquaresOf_of_fields {h a : Handle} {c shape : Cell} {sides : List Value}
    (term : w.instance? h = some
      { cls := .leastSquares, fields := [("A", a), ("y", .data c), ("input_shape", .data shape)] })
    (operatorHeld : w.instance? a = some { cls := .objectClass, body := .operator operator })
    (sidesHeld : w.memory.content shape = some (.tuple sides)) :
    leastSquaresOf w h = .ok (madeTerm operator c sides) := by
  have shown : w.shown (.data shape) = .tuple sides := by
    have content : w.content? (.data shape) = some (.tuple sides) := sidesHeld
    rw [World.shown, content]
  have first : operatorOf w h = .ok operator := by
    have found : (w.field? h "A").bind w.instance? =
        some { cls := .objectClass, body := .operator operator } := by
      rw [World.field?, term]
      exact operatorHeld
    rw [operatorOf, found]
  have fields : w.field? h "y" = some (.data c) ∧
      w.field? h "input_shape" = some (.data shape) := by
    rw [World.field?, World.field?, term]
    exact ⟨rfl, rfl⟩
  rw [leastSquaresOf, first, fields.1, fields.2]
  change Except.ok _ = Except.ok _
  rw [shown]
  rfl

/-- Parts that are placed make an instance of the term. -/
theorem outcome_instance (operator : LinearOperator Value) {y : Ref Value} {a : NDArray}
    (sides : List Value)
    (kept : (Action.readRef y).outcome w.memory = (.ok (.array a), w.memory)) :
    ∃ made w' c, (do
          let (fields, answer) ← placed operator y a sides
          return (answer, ← newInstance { cls := .leastSquares, fields })).outcome w =
        (.ok made, w') ∧
      Made w' made.2 operator a sides c := by
  have operatorHeld (i j : Instance) : ((w.objects.push i).push j)[w.objects.size]? = some i := by
    rw [Array.getElem?_push_lt (by rw [Array.size_push]; exact Nat.lt_succ_self _),
      Array.getElem_push_eq]
  have term (i j : Instance) :
      ((w.objects.push i).push j)[(w.objects.push i).size]? = some j :=
    Array.getElem?_push_size
  cases y with
  | cell c =>
    obtain ⟨held, -⟩ := Action.outcome_read_eq_ok kept
    have sidesHeld := Memory.content_push_next w.memory (.tuple sides)
    exact ⟨_, _, c, rfl, leastSquaresOf_of_fields (a := .object w.objects.size) (term _ _)
      (operatorHeld _ _) sidesHeld, Memory.content_push_of_content held _⟩
  | const v =>
    obtain rfl : v = .array a := Except.ok.inj (congrArg Prod.fst kept)
    have held := Memory.content_push_next w.memory (Value.array a)
    have sidesHeld := Memory.content_push_next (w.memory.push (.array a)) (.tuple sides)
    exact ⟨_, _, w.memory.next, rfl, leastSquaresOf_of_fields (a := .object w.objects.size)
      (term _ _) (operatorHeld _ _) sidesHeld, Memory.content_push_of_content held _⟩

/-- What is judged to fit is made, and nothing is left of anything else. -/
theorem outcome_construct (operator : LinearOperator Value) (inputShape : Handle)
    (seen : (Action.readRef (w.refOf observed)).outcome w.memory = (.ok v, w.memory)) :
    ∃ verdict, Judged operator v (givenSides w operator inputShape) verdict ∧
      match verdict with
      | .error fault => (construct operator observed inputShape).outcome w = (.error fault, w)
      | .ok (a, sides) => ∃ made w' c,
          (construct operator observed inputShape).outcome w = (.ok made, w') ∧
            Made w' made.2 operator a sides c := by
  obtain ⟨a, y, data, accepted, kept⟩ | ⟨unfit, defect, refused⟩ := outcome_accept seen "y"
  · have fields := outcome_fields operator inputShape accepted kept
    have judged := judged_of_isData operator data (givenSides w operator inputShape)
    refine ⟨_, judged, ?_⟩
    cases verdict : judge operator a (givenSides w operator inputShape) with
    | error fault =>
      rw [verdict] at fields
      change (construct operator observed inputShape).outcome w = (.error fault, w)
      rw [construct, outcome_bind, fields]
    | ok sides =>
      rw [verdict] at fields
      obtain ⟨made, w', c, ran, term⟩ := outcome_instance operator sides kept
      refine ⟨made, w', c, ?_, term⟩
      rw [construct, outcome_bind, fields, ← ran, outcome_bind]
  · have refused' : (onMemory fun w => GradientCheck.accept "y" (w.refOf observed)).outcome w =
      (.error (.invalidArray "y" defect), w) := outcome_onMemory refused
    refine ⟨.error (.invalidArray "y" defect), .unfit unfit, ?_⟩
    simp only [construct, leastSquaresFields, outcome_bind, refused']

/-! ## Evaluations of what is made -/

variable {fails : Fault → Prop} {m : Memory Value} {a : NDArray} {sides : List Value} {c : Cell}

/-- A matrix of numbers that lasts is seen as one. -/
theorem exists_numeric_of_kept {m' : Memory Value}
    (numeric : ∀ c b, m.content c = some (.array b) → b.dtype.IsNumeric)
    (held : m.content c = some (.array a)) (kept : m.KeepsArrays m') :
    ∃ b, (Action.readRef (.cell c)).outcome m' = (.ok (Value.array b), m') ∧ b.dtype.IsNumeric := by
  obtain ⟨b, content, dtype, -⟩ := kept c _ _ ⟨a, held, rfl, rfl⟩
  exact ⟨b, Action.outcome_readRef_cell content, dtype ▸ numeric c a held⟩

theorem outcome_arrayOf_eq_ok {h : Handle} {w' : World}
    (ran : (arrayOf h).outcome w = (.ok a, w')) :
    w' = w ∧ ∃ c, h = .data c ∧ w.memory.content c = some (.array a) := by
  rw [arrayOf, outcome_bind, outcome_world] at ran
  dsimp only at ran
  split at ran
  · next b held =>
    cases ran
    cases h with
    | data c => exact ⟨rfl, c, rfl, held⟩
    | object i => cases held
  · cases ran

/-- The operators that sources give have their products as long as their matrices are of numbers,
but for the adjoint of one that lacks it. -/
theorem maps_of_makeOperator {source : OperatorSource} {w' : World}
    (made : (makeOperator source).outcome w = (.ok operator, w'))
    (numeric : ∀ c b, w'.memory.content c = some (.array b) → b.dtype.IsNumeric)
    (kept : w'.memory.KeepsArrays m) : operator.Maps (· = .noAdjoint) m := by
  cases source with
  | subsample height width =>
    cases made
    exact LinearOperator.maps_subsample height width
  | matrix o =>
    obtain ⟨h, w₁, -, afterOperand⟩ := outcome_bind_eq_ok made
    obtain ⟨a, w₂, found, afterArray⟩ := outcome_bind_eq_ok afterOperand
    obtain ⟨rfl, c, rfl, held⟩ := outcome_arrayOf_eq_ok found
    obtain ⟨⟨rows, columns⟩, w₃, sides, afterSides⟩ := outcome_bind_eq_ok afterArray
    obtain ⟨-, rfl⟩ := outcome_lift_eq_ok sides
    cases afterSides
    obtain ⟨b, seen, numbers⟩ := exists_numeric_of_kept numeric held kept
    exact LinearOperator.maps_ofMatrix .dense seen numbers
  | compressed o =>
    obtain ⟨h, w₁, -, afterOperand⟩ := outcome_bind_eq_ok made
    obtain ⟨a, w₂, found, afterArray⟩ := outcome_bind_eq_ok afterOperand
    obtain ⟨rfl, c, rfl, held⟩ := outcome_arrayOf_eq_ok found
    obtain ⟨⟨rows, columns⟩, w₃, sides, afterSides⟩ := outcome_bind_eq_ok afterArray
    obtain ⟨-, rfl⟩ := outcome_lift_eq_ok sides
    dsimp only at afterSides
    split at afterSides
    · cases afterSides
    · cases afterSides
      exact LinearOperator.maps_ofMatrix .sparse rfl (numeric c a held)
  | withoutAdjoint o =>
    obtain ⟨h, w₁, -, afterOperand⟩ := outcome_bind_eq_ok made
    obtain ⟨a, w₂, found, afterArray⟩ := outcome_bind_eq_ok afterOperand
    obtain ⟨rfl, c, rfl, held⟩ := outcome_arrayOf_eq_ok found
    split at afterArray
    · cases afterArray
      obtain ⟨b, seen, numbers⟩ := exists_numeric_of_kept numeric held kept
      exact LinearOperator.maps_withoutAdjoint seen numbers
    · cases afterArray

theorem fits_madeTerm (sides : List Value) (held : m.Holds c a.dtype a.shape)
    (floating : a.dtype.isInexact = true) (rows : a.size = operator.rows) (maps : operator.Maps fails m) :
    (madeTerm operator c sides).Fits fails m := by
  obtain ⟨b, content, dtype, shape⟩ := held
  have size : b.size = a.size :=
    b.data.length_entries.trans ((congrArg Shape.size shape).trans a.data.length_entries.symm)
  exact ⟨maps, b, Action.outcome_readRef_cell content, dtype ▸ floating, size.trans rows⟩

theorem words_of_isPossible {x : NDArray} (possible : x.IsPossible) :
    Shape.Words (x.shape.map ((↑) : ℕ → ℤ)) := by
  intro i member
  obtain ⟨n, inside, rfl⟩ := List.mem_map.mp member
  have bound := possible.sides n inside
  rw [DType.holds_signed]
  omega

/-- The shape of an array counts its entries. -/
theorem sidesCount_of_isPossible {x : NDArray} (possible : x.IsPossible) :
    sidesCount (Shape.literals (x.shape.map (↑))) = .ok x.size := by
  have bound := possible.entries
  have size : (x.shape.map ((↑) : ℕ → ℤ)).prod = x.size :=
    (Shape.prod_map_natCast x.shape).trans (congrArg Nat.cast x.data.length_entries.symm)
  rw [sidesCount_ints (words_of_isPossible possible), size, Int.bmod_eq_of_le] <;> omega

/-- A vector is brought to the shape of an array with as many entries. -/
theorem shapes_madeTerm {x : NDArray} (possible : x.IsPossible) (size : x.size = operator.columns)
    (integers : AreIntegers sides (x.shape.map (↑))) :
    (madeTerm operator c sides).Shapes x.shape := by
  rintro g ⟨b, rfl, floating, shape⟩
  have named : Shape.Names (x.shape.map ((↑) : ℕ → ℤ)) b.size := by
    refine ⟨by rw [List.length_map]; exact possible.rank, by simp, ?_⟩
    rw [Shape.prod_map_natCast, NDArray.size_eq_of_shape shape]
    exact_mod_cast (x.data.length_entries.symm.trans size)
  obtain ⟨r, brought, dtype, kind⟩ := reshapeTo_of_names integers
    (words_of_isPossible possible) named
  refine ⟨r, brought, dtype ▸ floating, ?_⟩
  rw [kind, List.map_map]
  exact List.map_id _

theorem misshapes_of_literals {ints : List ℤ} (filled : 0 < operator.columns)
    (few : operator.columns < 2 ^ 63)
    (count : sidesCount (Shape.literals ints) = .ok operator.columns)
    (unnamed : ¬ Shape.Names ints operator.columns) :
    (madeTerm operator c (Shape.literals ints)).Misshapes := by
  rintro g ⟨b, rfl, -, shape⟩
  have size : b.size = operator.columns := NDArray.size_eq_of_shape shape
  cases brought : (madeTerm operator c (Shape.literals ints)).shaped (.array b) with
  | error fault => exact ⟨fault, rfl⟩
  | ok r =>
    have named := names_of_reshapeTo (size ▸ filled) (size ▸ few) (size ▸ count) brought
    exact absurd (size ▸ named) unnamed

theorem misshapes_of_not_integer {side : Value} (member : side ∈ sides)
    (other : side.integer? = none) : (madeTerm operator c sides).Misshapes := by
  rintro g ⟨b, rfl, -, -⟩
  cases brought : (madeTerm operator c sides).shaped (.array b) with
  | error fault => exact ⟨fault, rfl⟩
  | ok r =>
    obtain ⟨ints, integers, -⟩ := exists_of_reshapeTo brought
    have inside : none ∈ ints.map some := by
      rw [← integers, ← other]
      exact List.mem_map_of_mem member
    obtain ⟨i, -, impossible⟩ := List.mem_map.mp inside
    cases impossible

/-- An array of zeros of a shape. -/
def zeros (shape : List ℕ) : NDArray :=
  ⟨.float64, ⟨shape, List.replicate (Shape.size shape) (.real .zero), List.length_replicate⟩⟩

/-- A matrix of zeros with one row. -/
def flatOperator (columns : ℕ) : LinearOperator Value :=
  .ofMatrix .dense 1 columns (.const (.array (zeros [1, columns])))

/-- A world with data for one row and two shapes for five columns, one of which no array has. -/
def besideShapes : World where
  memory := { cells := #[.array (zeros [1]), .tuple (Shape.literals [5, 1]),
    .tuple (Shape.literals [-1, -5])] }

theorem zeros_isFinite (shape : List ℕ) : ∀ x ∈ (zeros shape).data.entries, x.isFinite = true := by
  intro x member
  obtain ⟨-, rfl⟩ := List.mem_replicate.mp member
  rfl

theorem maps_flatOperator (columns : ℕ) (m : Memory Value) :
    (flatOperator columns).Maps (fun _ => False) m :=
  LinearOperator.maps_ofMatrix .dense rfl ⟨nofun, nofun⟩

end Session

end ProxGrad
