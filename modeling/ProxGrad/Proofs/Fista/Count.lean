import ProxGrad.Proofs.Fista.Failure
import ProxGrad.Proofs.Fista.Progress
import ProxGrad.Proofs.Options

/-!
# The number of iterations

A run on a floating array with accepted options makes as many iterations as they count, unless one
of its terms stops it. The one exception is a count that is the largest number of its own integer
type: the bound of the loop, one more, wraps around there, and the run makes no iteration at all.
-/

set_option autoImplicit false

namespace ProxGrad

namespace Fista

variable {objective : Objective Value} {plan : Plan Value} {o : FistaOptions} {x : Cell}
  {a : NDArray} {begun prepared m : Memory Value} {w : Workspace Value} {first : State Value}
  {count : Nat}

/-- What a run leaves that made `count` iterations and was not stopped. -/
structure Finished (objective : Objective Value) (plan : Plan Value) (w : Workspace Value)
    (first : State Value) (begun prepared : Memory Value) (x : Cell) (count : Nat)
    (m : Memory Value) : Prop where
  outcome : (minimize (pure objective) plan x).outcome begun = (.ok x, m)
  reached : ∃ s, (afterIterations objective plan w first count).outcome prepared = (.ok s, m)
  /-- Evaluations and proximal maps take turns, one of each in every iteration. -/
  turns : objective.Announced → m.turns = begun.turns ++ rounds count
  /-- A run without iterations leaves all cells as they were. -/
  idle : count = 0 → ∀ c v, begun.content c = some v → m.content c = some v
  /-- Every iteration puts its value into its entry of a history, whatever array that is. -/
  writes : ∀ h, plan.history = some h → ∀ k < count, ∃ s m',
    (afterIterations objective plan w first k).outcome prepared = (.ok s, m') ∧
      Writes objective plan w h k m'
  /-- A history that is an array of its own holds the values of all iterations in the end. -/
  records : ∀ own h old, objective.Contained own → Separate own plan x begun →
    plan.history = some h → begun.content h = some (.array old) →
    ∃ new, m.content h = some (.array new) ∧
      (answers objective plan w first prepared count).length = count ∧
      Recorded old (answers objective plan w first prepared count) new

theorem finished_of_afterIterations {s : State Value}
    (ran : (setUp plan x).outcome begun = (.ok (count, w, first), prepared))
    (reached : (afterIterations objective plan w first count).outcome prepared = (.ok s, m))
    (writes : ∀ h, plan.history = some h → ∀ k < count, ∃ s m',
      (afterIterations objective plan w first k).outcome prepared = (.ok s, m') ∧
        Writes objective plan w h k m') :
    Finished objective plan w first begun prepared x count m := by
  have opened := opened_of_setUp ran
  refine ⟨outcome_minimize ran reached, ⟨s, reached⟩, ?_, ?_, writes, ?_⟩
  · intro announced
    rw [turns_of_afterIterations announced reached, Memory.turns_eq_of_calls opened.calls]
  · rintro rfl c v held
    cases reached
    rw [opened.content c (Memory.index_lt_of_content held), held]
  · intro own h old contained separate chosen held
    have before : prepared.content h = some (.array old) := by
      rw [opened.content h (Memory.index_lt_of_content held), held]
    obtain ⟨stored, after, entered⟩ := history_of_afterIterations contained chosen
      (separate.beside opened chosen) before reached
    obtain ⟨new, rfl, recorded⟩ := recorded_of_entered entered
    exact ⟨new, after, length_answers (by simp [Plan.observed, chosen]) reached, recorded⟩

/-- A run with accepted options makes as many iterations as they count, or is stopped by a term, or
by a value that the history does not take. A count that is the largest number of its type makes
none. -/
theorem accepted_options_run_their_count {niter : Int} (made : o.Made begun)
    (bound : o.lipschitz.isAbsent = false) (counted : o.iterations.integer? = some niter)
    (inRange : o.iterations.isInRange = true) (held : begun.content x = some (.array a))
    (floating : a.dtype.isInexact = true) (alike : begun.AllocatesAlike)
    (lasting : objective.Lasting) (accelerated verbose : Bool) :
    let plan := Session.planOf o accelerated verbose
    let count := if o.iterations.isLargest then 0 else niter.toNat
    0 ≤ niter ∧ (∀ h, o.history = some h → ∃ d, begun.Holds h d [niter.toNat]) ∧
    ∃ w first prepared, (setUp plan x).outcome begun = (.ok (count, w, first), prepared) ∧
      ((∃ m, Finished objective plan w first begun prepared x count m) ∨
        ∃ k s m fault m', k < count ∧
          (afterIterations objective plan w first k).outcome prepared = (.ok s, m) ∧
          Stopped objective plan w k m fault m' ∧
          (minimize (pure objective) plan x).outcome begun = (.error fault, m')) := by
  intro plan count
  have sound := FistaOptions.sound_of_made made
  have iterations : plan.iterations = some count :=
    FistaOptions.loopCount_eq counted (sound.iterations niter counted) inRange
  have constant : plan.lipschitz = some o.lipschitz := if_neg (by simp [bound])
  have nonneg := sound.iterations niter counted
  have recorded (h : Cell) (chosen : o.history = some h) : ∃ d, begun.Holds h d [niter.toNat] := by
    obtain ⟨d, n, same, holds⟩ := sound.history h chosen
    cases counted.symm.trans same
    exact ⟨d, holds⟩
  have enough : count ≤ niter.toNat := by
    unfold count
    split
    · exact Nat.zero_le _
    · exact Nat.le_refl _
  obtain ⟨w, first, prepared, ran, equipped, carried⟩ := exists_setUp held floating alike iterations
    constant (FistaOptions.exists_realScalar (sound.lipschitz bound) floating) fun h chosen => by
      obtain ⟨d, holds⟩ := recorded h chosen
      exact ⟨d, niter.toNat, holds, enough⟩
  refine ⟨nonneg, recorded, w, first, prepared, ran, ?_⟩
  rcases equipped.afterIterations_or_stopped lasting carried (Nat.le_refl count) with
    ⟨s, m, reached, -, -, writes⟩ | ⟨k, s, m, fault, m', before, reached, failed, stopped⟩
  · exact .inl ⟨m, finished_of_afterIterations ran reached writes⟩
  · exact .inr ⟨k, s, m, fault, m', before, reached, stopped,
      outcome_minimize_of_failed ran before reached failed⟩

/-! ## Counts of eight bits -/

theorem announcedDistance_lasting (limit : Nat) (y : NDArray) :
    (announcedDistance limit y).Lasting where
  gradient x _ := counting_lasting limit .gradient ⟨2⟩ ⟨3⟩ (.cell x) <|
    .bind (Terms.squaredDistance_lasting _ _ _) fun _ => .of_still (Action.still_pure _)
  valueAndGradient x _ := counting_lasting limit .valueAndGradient ⟨3⟩ ⟨2⟩ (.cell x) <|
    Terms.squaredDistance_lasting _ _ _
  prox _ _ _ := ProximalTerm.announcing_lasting _ (Terms.proxNonNegative_lasting _ _)

/-- Options with a count in a signed type of eight bits and a history in the second cell. -/
def shortOptions (n : Int) : FistaOptions where
  lipschitz := .real (Binary.ofInt .double 2)
  accelerated := .bool true
  resetCounter := .absent
  iterations := .scalar (.int true 8) (.int n)
  verbose := .bool false
  history := some ⟨1⟩

def makeShort (n : Int) (history : NDArray) : Except Fault FistaOptions :=
  FistaOptions.make (.real (Binary.ofInt .double 2)) (.bool true) .absent
    (.scalar (.int true 8) (.int n)) (.bool false) (some (⟨1⟩, .array history))

/-- The run with such options from a point, beside a history. -/
def shortRun (n : Int) (x : List Int) (history : NDArray) : Except Fault Cell × Memory Value :=
  (minimize (pure (announcedDistance 127 (doubles (x.map fun _ => 0))))
    (Session.planOf (shortOptions n) true false) ⟨0⟩).outcome (besideCounters (doubles x) history)

/-- A short count of two makes two iterations, which fill the history. -/
theorem two_iterations_of_short_count :
    ∃ m new values, makeShort 2 (doubles [7, 7]) = .ok (shortOptions 2) ∧
      shortRun 2 [1, -2] (doubles [7, 7]) = (.ok ⟨0⟩, m) ∧
      m.turns = [.evaluation, .prox, .evaluation, .prox] ∧
      m.content ⟨1⟩ = some (.array new) ∧ values.length = 2 ∧
      Recorded (doubles [7, 7]) values new := by
  have made : makeShort 2 (doubles [7, 7]) = .ok (shortOptions 2) := rfl
  have accepted : (shortOptions 2).Made (besideCounters (doubles [1, -2]) (doubles [7, 7])) := by
    refine .constructed ?_ made
    rintro _ _ ⟨⟩
    rfl
  have counted : (shortOptions 2).iterations.integer? = some 2 := rfl
  have held : (besideCounters (doubles [1, -2]) (doubles [7, 7])).content ⟨0⟩ =
      some (.array (doubles [1, -2])) := rfl
  have separate : Separate {⟨2⟩, ⟨3⟩} (Session.planOf (shortOptions 2) true false) ⟨0⟩
      (besideCounters (doubles [1, -2]) (doubles [7, 7])) := by
    refine ⟨by simp, ?_, ?_, ?_⟩ <;> rintro _ ⟨⟩ <;> decide
  obtain ⟨-, -, w, first, prepared, -, either⟩ :=
    accepted_options_run_their_count accepted rfl counted (by decide) held rfl
      (fun _ a => ⟨a, rfl, rfl, rfl⟩) (announcedDistance_lasting 127 (doubles [0, 0])) true false
  rcases either with ⟨m, finished⟩ | ⟨k, s, m, fault, m', -, -, -, failed⟩
  · obtain ⟨new, after, length, recorded⟩ := finished.records _ ⟨1⟩ (doubles [7, 7])
      (announcedDistance_contained 127 (doubles [0, 0])) separate rfl rfl
    have turns := finished.turns (announcedDistance_announced 127 (doubles [0, 0]))
    exact ⟨m, new, _, made, finished.outcome, turns, after, length, recorded⟩
  · have finishes : fails (shortRun 2 [1, -2] (doubles [7, 7])) = false := by
      decide +kernel
    have stops : shortRun 2 [1, -2] (doubles [7, 7]) = (.error fault, m') := failed
    rw [stops] at finishes
    cases finishes

def sevens (count : Nat) : NDArray :=
  ⟨.float64, .fill [count] (.real (Binary.ofInt .double 7))⟩

/-- The largest count of eight bits is accepted with a history of as many entries, and its run makes
no iteration. -/
theorem largest_short_count_runs_nothing :
    makeShort 127 (sevens 127) = .ok (shortOptions 127) ∧
      (shortOptions 127).iterations.integer? = some 127 ∧
      (shortRun 127 [3] (sevens 127)).1 = .ok ⟨0⟩ ∧
      (shortRun 127 [3] (sevens 127)).2.turns = [] ∧
      realsAt (shortRun 127 [3] (sevens 127)).2 ⟨1⟩ =
        List.replicate 127 (Binary.ofInt .double 7) := by
  refine ⟨rfl, rfl, ?_, ?_, ?_⟩
  all_goals decide +kernel

end Fista

end ProxGrad
