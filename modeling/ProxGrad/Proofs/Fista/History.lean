import Mathlib.Data.List.Forall2
import Mathlib.Data.List.Induction
import ProxGrad.Proofs.ClosedForms
import ProxGrad.Proofs.Counting
import ProxGrad.Proofs.Fista.Instruments
import ProxGrad.Proofs.Options

/-!
# Histories of runs on rounded values

A history is an array of some element type, to which each value is converted when it is stored.
`Recorded` says what is in it. With it the theorem on instruments becomes one on the entries of
arrays. A history that does not take a value, or is the iterate itself, does interfere.
-/

set_option autoImplicit false

namespace ProxGrad

namespace Fista

/-- An array whose first entries are these values in its element type, and whose other entries are
those of an older array. -/
structure Recorded (old : NDArray) (values : List Value) (new : NDArray) : Prop where
  dtype : new.dtype = old.dtype
  shape : new.shape = old.shape
  entries : ∃ converted,
    List.Forall₂ (fun v e => Value.entryAs old.dtype v = .ok e) values converted ∧
    new.data.entries = converted ++ old.data.entries.drop values.length

/-- A history that options allocate takes every real literal. -/
theorem exists_entryAs_of_newHistory {space : Option Nat} {iterations : Int} {lipschitz : Value}
    {history : NDArray}
    (allocated : FistaOptions.newHistory space iterations lipschitz = .ok history) (r : Binary) :
    ∃ e, Value.entryAs history.dtype (.real r) = .ok e := by
  obtain ⟨p, buffers⟩ : ∃ p, lipschitz.bufferType = .real p := by
    unfold Value.bufferType
    split
    · exact ⟨_, rfl⟩
    · split <;> exact ⟨_, rfl⟩
    · exact ⟨_, rfl⟩
  rw [FistaOptions.dtype_of_newHistory allocated, buffers]
  exact ⟨_, rfl⟩

theorem setEntry_array {a : NDArray} {i : Nat} (bound : i < a.size) (v : Value) :
    Calculus.setEntry (Value.array a) i v =
      (Value.entryAs a.dtype v).map fun e => .array ⟨a.dtype, a.data.set i e⟩ := by
  change Value.setEntry _ i v = _
  rw [Value.setEntry]
  simp only [Nat.not_le.mpr bound, if_false]
  cases Value.entryAs a.dtype v <;> rfl

theorem Recorded.size {old new : NDArray} {values : List Value}
    (recorded : Recorded old values new) : new.size = old.size := by
  have shapes : new.data.shape = old.data.shape := recorded.shape
  rw [NDArray.size, NDArray.size, Tensor.size, Tensor.size, new.data.length_entries,
    old.data.length_entries, shapes]

theorem Recorded.concat {old new : NDArray} {values : List Value}
    (recorded : Recorded old values new) (room : values.length < old.size) {v : Value} {e : Scalar}
    (converts : Value.entryAs old.dtype v = .ok e) :
    Recorded old (values ++ [v]) ⟨new.dtype, new.data.set values.length e⟩ := by
  obtain ⟨dtype, shape, converted, each, entries⟩ := recorded
  have count := each.length_eq
  refine ⟨dtype, shape, converted ++ [e], ?_, ?_⟩
  · exact List.rel_append each (.cons converts .nil)
  · change new.data.entries.set values.length e = _
    rw [entries, count, set_next (count ▸ room), List.length_append, List.length_singleton, count]

theorem exists_entered {old : NDArray} {values : List Value} (room : values.length ≤ old.size)
    (takes : ∀ v ∈ values, ∃ e, Value.entryAs old.dtype v = .ok e) :
    ∃ new, entered (.array old) values = .ok (.array new) ∧ Recorded old values new := by
  induction values using List.reverseRecOn with
  | nil => exact ⟨old, rfl, rfl, rfl, [], .nil, rfl⟩
  | append_singleton values v ih =>
      rw [List.length_append, List.length_singleton] at room
      obtain ⟨new, stored, recorded⟩ := ih (Nat.le_of_succ_le room)
        fun v' member => takes v' (List.mem_append_left _ member)
      obtain ⟨e, converts⟩ := takes v (List.mem_append_right _ (List.mem_singleton_self v))
      refine ⟨_, ?_, recorded.concat room converts⟩
      rw [entered_concat stored, setEntry_array (recorded.size ▸ room), recorded.dtype, converts]
      rfl

theorem exists_entered_of_concat {buffer stored : Value} {values : List Value} {v : Value}
    (taken : entered buffer (values ++ [v]) = .ok stored) :
    ∃ earlier, entered buffer values = .ok earlier ∧
      Calculus.setEntry earlier values.length v = .ok stored := by
  have split := taken
  rw [entered, List.zipIdx_append, List.foldlM_append] at split
  obtain ⟨earlier, before, _⟩ := exists_of_bind_eq_ok split
  exact ⟨earlier, before, entered_concat before v ▸ taken⟩

theorem lt_size_of_setEntry {a : NDArray} {i : Nat} {v stored : Value}
    (taken : Calculus.setEntry (Value.array a) i v = .ok stored) : i < a.size := by
  by_contra beyond
  change Value.setEntry (.array a) i v = .ok stored at taken
  rw [Value.setEntry, if_pos (Nat.le_of_not_lt beyond)] at taken
  cases taken

/-- Values that a history took are recorded in it. -/
theorem recorded_of_entered {old : NDArray} {values : List Value} {stored : Value}
    (taken : entered (.array old) values = .ok stored) :
    ∃ new, stored = .array new ∧ Recorded old values new := by
  induction values using List.reverseRecOn generalizing stored with
  | nil =>
    cases taken
    exact ⟨old, rfl, rfl, rfl, [], .nil, rfl⟩
  | append_singleton values v ih =>
    obtain ⟨_, before, last⟩ := exists_entered_of_concat taken
    obtain ⟨earlier, rfl, recorded⟩ := ih before
    have room := lt_size_of_setEntry last
    rw [setEntry_array room, recorded.dtype] at last
    cases converts : Value.entryAs old.dtype v with
    | error fault =>
      rw [converts] at last
      cases last
    | ok e =>
      rw [converts] at last
      cases last
      exact ⟨_, rfl, recorded.dtype ▸ recorded.concat (recorded.size ▸ room) converts⟩

variable {objective : Objective Value} {plan : Plan Value} {own : Likeness Value} {x buffer : Cell}
  {f : Value → Value} {old : NDArray} {m : Memory Value}

/-- A buffer with room for every iteration records the values of the first ones, if it takes all. -/
theorem exists_entered_computed {w : Workspace Value} {first : State Value}
    {prepared : Memory Value} {count : Nat} (room : count ≤ old.size)
    (takes : ∀ p ∈ computedPoints objective plan w first prepared count,
      ∃ e, Value.entryAs old.dtype (f p) = .ok e) (n : Nat) (bound : n ≤ count) :
    ∃ new, entered (.array old) ((computedPoints objective plan w first prepared n).map f) =
        .ok (.array new) ∧
      Recorded old ((computedPoints objective plan w first prepared n).map f) new := by
  refine exists_entered ?_ fun v member => ?_
  · rw [List.length_map]
    exact (length_computedPoints_le _ _ _ _ _ n).trans (bound.trans room)
  · obtain ⟨p, inside, rfl⟩ := List.mem_map.mp member
    exact takes p (mem_computedPoints_of_le bound inside)

/-- Instruments only observe, as long as the history takes the values. Whatever instruments a run
has, it gives the result and the iterate of the run without; after every number of iterations as
well. It calls the smooth term at the iterates, for values exactly if it has instruments. Its
history starts with the values that were computed and goes on with what it held before, and its
lines are numbered and carry the same values. -/
theorem instruments_only_observe (observable : objective.Observable own buffer f)
    (watched : Watched own plan buffer x (.array old) m)
    (verbose : Bool) (history : Option Cell) (chosen : ∀ h, history = some h → h = buffer)
    (room : history.isSome → ∀ count, plan.iterations = some count → count ≤ old.size)
    (takes : history.isSome → ∀ count w first prepared,
      (setUp plan x).outcome m = (.ok (count, w, first), prepared) →
      ∀ p ∈ computedPoints objective (plan.observing false none) w first prepared count,
        ∃ e, Value.entryAs old.dtype (f p) = .ok e) :
    (∃ result m₁ m₂,
      (minimize (pure objective) (plan.observing false none) x).outcome m = (result, m₁) ∧
      (minimize (pure objective) (plan.observing verbose history) x).outcome m = (result, m₂) ∧
      m₂.content x = m₁.content x) ∧
    ∀ count w first prepared,
      (setUp plan x).outcome m = (.ok (count, w, first), prepared) → ∀ n ≤ count,
      let started := startedPoints objective (plan.observing false none) w first prepared n
      let computed := computedPoints objective (plan.observing false none) w first prepared n
      ∃ result m₁ m₂ new,
        (afterIterations objective (plan.observing false none) w first n).outcome prepared =
          (result, m₁) ∧
        (afterIterations objective (plan.observing verbose history) w first n).outcome prepared =
          (result, m₂) ∧
        (n = count → (minimize (pure objective) (plan.observing verbose history) x).outcome m =
          (result.map fun _ => x, m₂)) ∧
        m₂.content x = m₁.content x ∧
        m₂.evaluations = m.evaluations ++ started.map (fun p =>
          (if verbose || history.isSome then .valueAndGradient else .gradient, p)) ∧
        m₂.content buffer = some (.array new) ∧
        Recorded old (if history.isSome then computed.map f else []) new ∧
        m₂.reports.toList =
          m.reports.toList ++ (if verbose then numbered (computed.map f) else []) := by
  have takes' {count w first prepared}
      (ran : (setUp plan x).outcome m = (.ok (count, w, first), prepared))
      (keeps : history.isSome) :=
    exists_entered_computed (room keeps count (opened_of_setUp ran).iterations)
      (takes keeps count w first prepared ran)
  have follows {count w first prepared}
      (ran : (setUp plan x).outcome m = (.ok (count, w, first), prepared)) :=
    outcome_observing observable watched verbose chosen (opened_of_setUp ran) fun keeps n bound =>
      (takes' ran keeps n bound).imp' Value.array fun _ both => both.1
  constructor
  · cases opening : (setUp plan x).outcome m with
    | mk opened prepared =>
        cases opened with
        | error fault =>
            exact ⟨.error fault, prepared, prepared, outcome_minimize_of_refused opening,
              outcome_minimize_of_refused opening, rfl⟩
        | ok opened =>
            obtain ⟨count, w, first⟩ := opened
            obtain ⟨result, m₁, m₂, left, right, same, _⟩ :=
              follows opening count (Nat.le_refl count)
            exact ⟨_, m₁, m₂, outcome_minimize opening left, outcome_minimize opening right, same⟩
  · intro count w first prepared ran n bound
    obtain ⟨result, m₁, m₂, left, right, same, evaluations, reports, v, held, stored⟩ :=
      follows ran n bound
    obtain ⟨new, rfl, recorded⟩ : ∃ new, v = .array new ∧ Recorded old (if history.isSome then
        (computedPoints objective (plan.observing false none) w first prepared n).map f else [])
        new := by
      cases history with
      | none =>
          cases stored
          exact ⟨old, rfl, rfl, rfl, [], .nil, rfl⟩
      | some h =>
          obtain ⟨new, taken, recorded⟩ := takes' ran rfl n bound
          cases stored.symm.trans taken
          exact ⟨new, rfl, recorded⟩
    refine ⟨result, m₁, m₂, new, left, right, ?_, same, evaluations, held, recorded, reports⟩
    rintro rfl
    exact outcome_minimize ran right

/-! ## Histories beside counters -/

def doubles (entries : List Int) : NDArray :=
  ⟨.float64, .ofList (entries.map fun i => .real (Binary.ofInt .double i))⟩

/-- Half the squared distance from an array, counted and failing from a limit on, over the points
without negative entries. -/
def distanceWithin (limit : Nat) (y : NDArray) : Objective Value where
  smooth := (Terms.squaredDistance (.const (.array y))).counted limit ⟨2⟩ ⟨3⟩
  proximal := {
    prox := fun point _ out => Terms.proxNonNegative point out
    value := fun _ => throw .noField }

theorem distanceWithin_observable (limit : Nat) (y : NDArray) (scratch : Nat) :
    (distanceWithin limit y).Observable (sameTotal ⟨2⟩ ⟨3⟩ scratch) ⟨1⟩
      (Terms.squaredDistanceFrom (.array y)) where
  smooth := (Terms.squaredDistance_observable (fun _ => ⟨rfl, rfl⟩) fun _ _ =>
    Terms.eq_squaredDistanceFrom).counted
    (by decide) (by decide) (by decide) limit
  proximal := Terms.nonNegative_observable rfl

def halfSteps (iterations : Nat) : Plan Value where
  lipschitz := some (.real (Binary.ofInt .double 2))
  accelerated := true
  resetAfter := none
  iterations := some iterations
  verbose := false
  history := none

/-- A memory with a point, a buffer, and two counters that have counted nothing. -/
def besideCounters (x buffer : NDArray) : Memory Value where
  cells := #[.array x, .array buffer, .count 0, .count 0]

theorem watched_besideCounters (x buffer : NDArray) (plan : Plan Value) :
    Watched (sameTotal ⟨2⟩ ⟨3⟩ (4 + plan.arrays)) plan ⟨1⟩ ⟨0⟩ (.array buffer)
      (besideCounters x buffer) where
  held := rfl
  apart := by decide
  foreign := by simp [sameTotal]
  buffer_foreign := by simp [sameTotal]
  existing := by simp [sameTotal, besideCounters]
  scratch := rfl
  alike := ⟨0, 0, 0, 0, rfl, rfl, rfl, rfl, rfl⟩

/-- A run that fails at the second call of its term does so with instruments as well, and leaves the
same point. -/
theorem distanceWithin_instruments_only_observe :
    ∃ history m₁ m₂, FistaOptions.newHistory none 2 (.int 2) = .ok history ∧
      (minimize (pure (distanceWithin 1 (doubles [0, 0])))
        ((halfSteps 2).observing false none) ⟨0⟩).outcome
        (besideCounters (doubles [1, -2]) history) = (.error (.term .gradient), m₁) ∧
      (minimize (pure (distanceWithin 1 (doubles [0, 0])))
        ((halfSteps 2).observing true (some ⟨1⟩)) ⟨0⟩).outcome
        (besideCounters (doubles [1, -2]) history) = (.error (.term .gradient), m₂) ∧
      m₂.content ⟨0⟩ = m₁.content ⟨0⟩ := by
  obtain ⟨history, chosen, allocated⟩ : ∃ history,
      history = ⟨.float64, .fill [2] (.zero .float64)⟩ ∧
      FistaOptions.newHistory none 2 (.int 2) = .ok history :=
    ⟨_, rfl, rfl⟩
  have fails : ((minimize (pure (distanceWithin 1 (doubles [0, 0])))
      ((halfSteps 2).observing false none) ⟨0⟩).outcome
      (besideCounters (doubles [1, -2]) history)).1 = .error (.term .gradient) := by
    rw [chosen]
    decide +kernel
  have room : 2 ≤ history.size := by
    rw [chosen]
    decide
  have observes := instruments_only_observe (distanceWithin_observable 1 (doubles [0, 0]) _)
    (watched_besideCounters (doubles [1, -2]) history (halfSteps 2)) true (some ⟨1⟩)
    (fun h same => (Option.some.inj same).symm)
    (fun _ count same => Option.some.inj same ▸ room)
    (fun _ count w first prepared _ p _ => by
      obtain ⟨r, real⟩ := Terms.squaredDistanceFrom_eq_real (.array (doubles [0, 0])) p
      rw [real]
      exact exists_entryAs_of_newHistory allocated r)
  obtain ⟨⟨result, m₁, m₂, left, right, same⟩, _⟩ := observes
  rw [left] at fails
  cases fails
  exact ⟨history, m₁, m₂, allocated, left, right, same⟩

def realsAt (m : Memory Value) (c : Cell) : List Binary :=
  match m.content c with
  | some (.array a) => a.data.entries.filterMap fun
    | .real r => some r
    | _ => none
  | _ => []

/-- One iteration from a large point, beside a buffer of integers, with some cell as the history. -/
def largeRun (history : Option Cell) : Except Fault Cell × Memory Value :=
  (minimize (pure (distanceWithin 2 (doubles [0])))
    ((halfSteps 1).observing false history) ⟨0⟩).outcome
    (besideCounters (doubles [10000000000]) ⟨.int64, .ofList [.int 0]⟩)

/-- A history that does not take a value fails a run that succeeds without, and one that is the
iterate itself leaves another point. -/
theorem histories_interfere :
    (distanceWithin 2 (doubles [0])).Observable (sameTotal ⟨2⟩ ⟨3⟩ 6) ⟨1⟩
        (Terms.squaredDistanceFrom (.array (doubles [0]))) ∧
      (largeRun none).1 = .ok ⟨0⟩ ∧
      realsAt (largeRun none).2 ⟨0⟩ = [Binary.ofInt .double 5000000000] ∧
      (largeRun (some ⟨1⟩)).1 = .error .overflow ∧
      realsAt (largeRun (some ⟨1⟩)).2 ⟨0⟩ = [Binary.ofInt .double 10000000000] ∧
      (largeRun (some ⟨0⟩)).1 = .ok ⟨0⟩ ∧
      realsAt (largeRun (some ⟨0⟩)).2 ⟨0⟩ ≠ [Binary.ofInt .double 5000000000] := by
  refine ⟨distanceWithin_observable 2 (doubles [0]) 6, ?_, ?_, ?_, ?_, ?_, ?_⟩
  all_goals decide +kernel

end Fista

end ProxGrad
