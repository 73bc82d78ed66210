import ProxGrad.Proofs.Options.Constants

/-!
# Well-formed options

Options whose parameters are in their ranges and whose history has one entry for each iteration.
Options are made well-formed or not at all, and rebinding the constant changes nothing else.
-/

set_option autoImplicit false

namespace ProxGrad.FistaOptions

open Value

/-- What holds of options in a memory, however they were made. -/
structure WellFormed (o : FistaOptions) (m : Memory Value) : Prop where
  lipschitz : o.lipschitz.isAbsent = true ∨ o.lipschitz.IsPositive
  resetCounter : o.resetCounter.IsCount 1
  iterations : o.iterations.IsCount 0
  history : ∀ h, o.history = some h →
    ∃ d n, o.iterations.integer? = some n ∧ m.Holds h d [n.toNat]

variable {o o' : FistaOptions} {m m' : Memory Value} {space : Option Nat}
  {lipschitz accelerated resetCounter iterations verbose recordHistory : Value}

theorem WellFormed.later (wellFormed : o.WellFormed m) (kept : m.KeepsArrays m') :
    o.WellFormed m' where
  lipschitz := wellFormed.lipschitz
  resetCounter := wellFormed.resetCounter
  iterations := wellFormed.iterations
  history h chosen := by
    obtain ⟨d, n, counted, holds⟩ := wellFormed.history h chosen
    exact ⟨d, n, counted, kept _ _ _ holds⟩

theorem isPositive_of_checkLipschitz {v : Value} (checked : checkLipschitz v = .ok ()) :
    v.IsPositive := by
  obtain ⟨real, positive⟩ := checkLipschitz_eq_ok checked
  exact isPositive_of_isFinitePositive? real positive

theorem isCount_of_checkCount {least : Int} {defect : String → OptionsDefect} {v : Value}
    (checked : checkCount least defect v = .ok ()) : v.IsCount least := by
  by_contra refused
  cases ((checkCount_eq least defect v).2 refused).symm.trans checked

theorem isCount_literalCount {least : Int} {v : Value} (counted : v.IsCount least) :
    (literalCount v).IsCount least := by
  cases number : v.integer? with
  | none => exact .inl (by simp [literalCount, number, isAbsent])
  | some n =>
    refine .inr ⟨n, by rw [integer?_literalCount, number], ?_⟩
    obtain absent | ⟨k, same, least_le⟩ := counted
    · cases v with
      | absent => cases number
      | _ => cases absent
    · cases number.symm.trans same
      exact least_le

/-- The parameters that pass their checks are in their ranges. -/
theorem inRange_of_checkParameters
    (checked : checkParameters lipschitz resetCounter iterations = .ok ()) :
    (lipschitz.isAbsent = true ∨ lipschitz.IsPositive) ∧ resetCounter.IsCount 1 ∧
      iterations.IsCount 0 := by
  obtain ⟨constant, first, last⟩ := checkParameters_eq_ok checked
  refine ⟨?_, isCount_of_checkCount first, isCount_of_checkCount last⟩
  cases present : lipschitz.isAbsent with
  | true => exact .inl rfl
  | false => exact .inr (isPositive_of_checkLipschitz (constant present))

theorem wellFormed_of_make {history : Option (Cell × Value)}
    (given : ∀ cell a, history = some (cell, .array a) → m.content cell = some (.array a))
    (made : make lipschitz accelerated resetCounter iterations verbose history = .ok o) :
    o.WellFormed m := by
  have sound := sound_of_make given made
  obtain ⟨_, checked, rest⟩ := exists_of_bind_eq_ok made
  obtain ⟨constant, counter, count⟩ := inRange_of_checkParameters checked
  have fields : o.lipschitz = lipschitz ∧ o.resetCounter = resetCounter ∧
      o.iterations = iterations := by
    cases history with
    | none =>
      cases rest
      exact ⟨rfl, rfl, rfl⟩
    | some recorded =>
      dsimp only at rest
      split at rest
      · obtain ⟨_, -, refused⟩ := exists_of_bind_eq_ok (a := iterations.plain?) rest
        cases refused
      · cases rest
        exact ⟨rfl, rfl, rfl⟩
  obtain ⟨rfl, rfl, rfl⟩ := fields
  exact ⟨constant, counter, count, sound.history⟩

theorem wellFormed_of_build
    (made : (build space lipschitz accelerated resetCounter iterations verbose
      recordHistory).outcome m = (.ok o, m')) :
    o.WellFormed m' := by
  obtain ⟨checked, same, counterSame, countSame, -⟩ := exists_of_build_eq_ok made
  obtain ⟨constant, counter, count⟩ := inRange_of_checkParameters checked
  exact ⟨same ▸ constant, counterSame ▸ isCount_literalCount counter,
    countSame ▸ isCount_literalCount count, (sound_of_build made).history⟩

theorem lasting_build (space : Option Nat)
    (lipschitz accelerated resetCounter iterations verbose recordHistory : Value) :
    (build space lipschitz accelerated resetCounter iterations verbose recordHistory).Lasting := by
  have finishing (history : Option Cell) : (do
      let accelerated ← Action.lift accelerated.truth?
      let verbose ← Action.lift verbose.truth?
      return { lipschitz, accelerated := .bool accelerated,
               resetCounter := literalCount resetCounter, iterations := literalCount iterations,
               verbose := .bool verbose, history } : Action Value FistaOptions).Lasting :=
    .bind (.of_still (Action.still_lift _)) fun _ => .bind (.of_still (Action.still_lift _))
      fun _ => .of_still (Action.still_pure _)
  refine .bind (.of_still (Action.still_lift _)) fun _ =>
    .bind (.of_still (Action.still_lift _)) fun recorded => ?_
  dsimp only
  split
  · refine .bind ?_ finishing
    rw [map_eq_pure_bind]
    exact .bind (.bind (.of_still (Action.still_lift _)) fun _ => Action.lasting_allocate _)
      fun _ => .of_still (Action.still_pure _)
  · exact .bind (.of_still (Action.still_pure _)) finishing

theorem WellFormed.rebind (wellFormed : o.WellFormed m)
    (bound : o.withLipschitz lipschitz = .ok o') : o'.WellFormed m := by
  obtain ⟨_, checked, rebinds⟩ := exists_of_bind_eq_ok bound
  cases rebinds
  exact ⟨.inr (isPositive_of_checkLipschitz checked), wellFormed.resetCounter,
    wellFormed.iterations, wellFormed.history⟩

theorem WellFormed.fitsHistory (wellFormed : o.WellFormed m) {h : Cell}
    (chosen : o.history = some h) :
    ∃ a, m.content h = some (.array a) ∧
      FistaOptions.fitsHistory o.iterations (.array a) = true := by
  obtain ⟨d, n, counted, a, held, -, shape⟩ := wellFormed.history h chosen
  have nonneg : 0 ≤ n := by
    obtain absent | ⟨k, same, least⟩ := wellFormed.iterations
    · cases iterations : o.iterations with
      | absent =>
        rw [iterations] at counted
        cases counted
      | _ =>
        rw [iterations] at absent
        cases absent
    · cases counted.symm.trans same
      exact least
  refine ⟨a, held, ?_⟩
  simp [FistaOptions.fitsHistory, counted, shape, Int.toNat_of_nonneg nonneg]

/-- The constructor accepts well-formed options again, once their constant is accepted. -/
theorem WellFormed.copied_eq_ok (wellFormed : o.WellFormed m)
    (accepted : checkLipschitz o.lipschitz = .ok ()) (content : Cell → Value)
    (shows : ∀ c v, m.content c = some v → content c = v) : o.copied content = .ok o := by
  have checked : checkParameters o.lipschitz o.resetCounter o.iterations = .ok () := by
    rw [checkParameters_eq wellFormed.resetCounter wellFormed.iterations, accepted, ite_self]
  obtain ⟨lipschitz, accelerated, resetCounter, iterations, verbose, history⟩ := o
  unfold copied make
  rw [checked]
  cases history with
  | none => rfl
  | some h =>
    obtain ⟨a, held, fits⟩ := wellFormed.fitsHistory rfl
    simp only [Option.map_some, shows h _ held, fits]
    rfl

theorem make_eq_ok (checked : checkParameters lipschitz resetCounter iterations = .ok ()) :
    make lipschitz accelerated resetCounter iterations verbose none =
      .ok ⟨lipschitz, accelerated, resetCounter, iterations, verbose, none⟩ := by
  rw [make, checked]
  rfl

/-- Whether options can be made of a constant and counts is the same question for both ways of
making them: a fault of one is that of the other, whatever the other arguments are. -/
structure DecidedAlike (lipschitz resetCounter iterations : Value) : Prop where
  refused (fault : Fault) : checkParameters lipschitz resetCounter iterations = .error fault →
    (∀ accelerated verbose history,
      make lipschitz accelerated resetCounter iterations verbose history = .error fault) ∧
    ∀ space accelerated verbose recordHistory m,
      (build space lipschitz accelerated resetCounter iterations verbose recordHistory).outcome m =
        (.error fault, m)
  accepted : checkParameters lipschitz resetCounter iterations = .ok () →
    (∀ accelerated verbose, ∃ o,
      make lipschitz accelerated resetCounter iterations verbose none = .ok o) ∧
    ∀ space accelerated verbose recordHistory,
      Grants space lipschitz accelerated iterations verbose recordHistory → ∀ m, ∃ o m',
        (build space lipschitz accelerated resetCounter iterations verbose
          recordHistory).outcome m = (.ok o, m')

theorem decidedAlike (lipschitz resetCounter iterations : Value) :
    DecidedAlike lipschitz resetCounter iterations where
  refused _ failed := ⟨fun _ _ _ => make_eq_error failed, fun _ _ _ _ => build_eq_error failed⟩
  accepted checked := by
    refine ⟨fun _ _ => ⟨_, make_eq_ok checked⟩, fun _ _ _ _ grants m => ?_⟩
    obtain ⟨o, m', built, -⟩ := exists_build_eq_ok checked grants m
    exact ⟨o, m', built⟩

end ProxGrad.FistaOptions
