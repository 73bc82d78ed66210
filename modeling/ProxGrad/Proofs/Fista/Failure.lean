import ProxGrad.Proofs.Fista.Calls
import ProxGrad.Proofs.Fista.History
import ProxGrad.Proofs.TermFootprints
import ProxGrad.Session.Operators

/-!
# Runs that fail

A run stops where one of its terms fails, with that fault. What it leaves is told by a shorter run
from the same start, the one that stops before the iteration that failed.
-/

set_option autoImplicit false

namespace ProxGrad

namespace Fista

section Shorter

variable {V : Type} [Calculus V] {objective : Objective V} {plan : Plan V} {x : Cell}
  {begun prepared m : Memory V} {count : Nat} {w : Workspace V} {first s : State V}

/-! ## Shorter runs -/

theorem accept_shorter {start lipschitz : V} (accepted : accept plan start = .ok (count, lipschitz))
    (n : Nat) : accept { plan with iterations := some n } start = .ok (n, lipschitz) := by
  obtain ⟨-, bound, floating⟩ := accept_eq_ok_iff.mp accepted
  exact accept_eq_ok_iff.mpr ⟨rfl, bound, floating⟩

theorem afterIterations_shorter (objective : Objective V) (plan : Plan V) (w : Workspace V)
    (first : State V) (k n : Nat) :
    afterIterations objective { plan with iterations := some k } w first n =
      afterIterations objective plan w first n := by
  induction n with
  | zero => rfl
  | succ n ih => rw [afterIterations, ih]; rfl

/-- The run of fewer iterations stops where the longer one stands after them. -/
theorem outcome_shorter (ran : (setUp plan x).outcome begun = (.ok (count, w, first), prepared))
    {n : Nat} (reached : (afterIterations objective plan w first n).outcome prepared = (.ok s, m)) :
    (minimize (pure objective) { plan with iterations := some n } x).outcome begun =
      (.ok x, m) := by
  obtain ⟨start, lipschitz, held, accepted, prepares⟩ := exists_of_setUp ran
  have opens := outcome_setUp held (accept_shorter accepted n) prepares
  rw [← afterIterations_shorter objective plan w first n] at reached
  rw [outcome_minimize opens reached, Except.map]

/-! ## Where a run stops -/

theorem outcome_afterIterations_of_failed {n k : Nat} {fault : Fault} {m' : Memory V}
    (reached : (afterIterations objective plan w first n).outcome prepared = (.ok s, m))
    (failed : (iteration objective plan w (n + 1) s).outcome m = (.error fault, m'))
    (bound : n < k) :
    (afterIterations objective plan w first k).outcome prepared = (.error fault, m') := by
  obtain ⟨more, rfl⟩ := Nat.exists_eq_add_of_lt bound
  induction more with
  | zero => exact (outcome_afterIterations_succ reached).trans failed
  | succ more ih =>
    exact outcome_afterIterations_succ_of_error (ih (Nat.lt_add_of_pos_right (Nat.succ_pos _)))

/-- A run fails as its first failing iteration does. -/
theorem outcome_minimize_of_failed
    (ran : (setUp plan x).outcome begun = (.ok (count, w, first), prepared)) {n : Nat}
    (bound : n < count) {fault : Fault} {m' : Memory V}
    (reached : (afterIterations objective plan w first n).outcome prepared = (.ok s, m))
    (failed : (iteration objective plan w (n + 1) s).outcome m = (.error fault, m')) :
    (minimize (pure objective) plan x).outcome begun = (.error fault, m') := by
  rw [outcome_minimize ran (outcome_afterIterations_of_failed reached failed bound), Except.map]

/-- The destination of proximal maps is the iterate exactly if iterates are not extrapolated. -/
theorem proximal_of_setUp
    (ran : (setUp plan x).outcome begun = (.ok (count, w, first), prepared)) :
    w.proximal = x ↔ plan.accelerated = false := by
  obtain ⟨start, lipschitz, held, -, prepares⟩ := exists_of_setUp ran
  obtain ⟨_, _, chosen, -⟩ := exists_of_prepare prepares
  rcases outcome_proximalArray_eq_ok chosen with ⟨mode, same, -⟩ | ⟨mode, new, -⟩
  · simp [same, mode]
  · simp [new, mode, (Memory.ne_next_of_content held).symm]

end Shorter

/-! ## Evaluations that fail -/

variable {objective : Objective Value} {own : Set Cell} {plan : Plan Value} {x : Cell}
  {begun : Memory Value}

/-- What a run leaves whose smooth term fails in iteration `n + 1`, and what one leaves that is not
accepted. -/
theorem evaluation_failure_keeps_iterate (contained : objective.Contained own)
    (announced : objective.Announced) (separate : Separate own plan x begun) :
    (∀ count w first prepared n s m fault m',
      (setUp plan x).outcome begun = (.ok (count, w, first), prepared) → n < count →
      (afterIterations objective plan w first n).outcome prepared = (.ok s, m) →
      (askSmooth objective plan w).outcome m = (.error fault, m') →
      (minimize (pure objective) plan x).outcome begun = (.error fault, m') ∧
      (minimize (pure objective) { plan with iterations := some n } x).outcome begun =
        (.ok x, m) ∧
      m'.content x = m.content x ∧ (n = 0 → m'.content x = begun.content x) ∧
      m'.turns.count .prox = begun.turns.count .prox + n ∧
      ∀ h old, plan.history = some h → begun.content h = some (.array old) →
        ∃ new, m'.content h = some (.array new) ∧
          (answers objective plan w first prepared n).length = n ∧
          Recorded old (answers objective plan w first prepared n) new) ∧
    ∀ (objective : Action Value (Objective Value)) start fault, begun.content x = some start →
      accept plan start = .error fault →
      (minimize objective plan x).outcome begun = (.error fault, begun) := by
  constructor
  · intro count w first prepared n s m fault m' ran bound reached failed
    have opened := opened_of_setUp ran
    have larger := size_le_of_afterIterations contained reached
    have existing : x.index < m.cells.size :=
      Nat.lt_of_lt_of_le opened.existing (opened.larger.trans larger)
    have kept := content_of_askSmooth contained separate opened failed existing
    have fails : (iteration objective plan w (n + 1) s).outcome m = (.error fault, m') := by
      rw [iteration_eq, evaluate_eq]
      exact Action.outcome_bind_of_error (Action.outcome_bind_of_error failed)
    refine ⟨outcome_minimize_of_failed ran bound reached fails, outcome_shorter ran reached, kept,
      ?_, ?_, ?_⟩
    · rintro rfl
      cases reached
      rw [kept, opened.content x opened.existing]
    · have turns := turns_of_afterIterations announced reached
      have begins := Memory.turns_eq_of_calls opened.calls
      have either := askSmooth_announces announced plan w m
      rw [failed] at either
      have added : m'.turns = m.turns ++ [.evaluation] ∨ m'.turns = m.turns :=
        either.imp_right And.right
      rcases added with added | added <;> rw [added, turns, begins] <;> simp [count_prox_rounds]
    · intro h old chosen held
      have beside := separate.beside opened chosen
      have before : prepared.content h = some (.array old) := by
        rw [opened.content h (separate.history_existing h chosen), held]
      obtain ⟨stored, held', entered⟩ :=
        history_of_afterIterations contained chosen beside before reached
      obtain ⟨new, rfl, recorded⟩ := recorded_of_entered entered
      refine ⟨new, ?_, length_answers (by simp [Plan.observed, chosen]) reached, recorded⟩
      exact (askSmooth_within contained plan w).content failed beside.not_mem_asked held'
  · intro objective start fault held refused
    have opens : (setUp plan x).outcome begun = (.error fault, begun) := by
      rw [setUp, Action.outcome_bind_of_ok (Action.outcome_read held), refused]
      rfl
    exact Action.outcome_bind_of_error opens

/-- The objective `distanceWithin` with a proximal term that announces its calls. -/
def announcedDistance (limit : Nat) (y : NDArray) : Objective Value where
  smooth := (distanceWithin limit y).smooth
  proximal := (distanceWithin limit y).proximal.announcing "prox_nonnegative"

theorem announcedDistance_contained (limit : Nat) (y : NDArray) :
    (announcedDistance limit y).Contained {⟨2⟩, ⟨3⟩} where
  gradient x _ := counting_within limit .gradient (by simp) ⟨3⟩ (.cell x) <|
    .bind (Terms.squaredDistance_within _ _ (by simp)) fun _ => .of_still (Action.still_pure _)
  valueAndGradient x _ := counting_within limit .valueAndGradient (by simp) ⟨2⟩ (.cell x) <|
    Terms.squaredDistance_within _ _ (by simp)
  prox _ _ _ := ProximalTerm.announcing_within _ <|
    Terms.proxNonNegative_within _ (by simp)

theorem announcedDistance_announced (limit : Nat) (y : NDArray) :
    (announcedDistance limit y).Announced where
  gradient x _ := counting_announces limit .gradient ⟨2⟩ ⟨3⟩ (.cell x) <|
    .bind (Terms.squaredDistance_silent _ _ _) fun _ => .of_still (Action.still_pure _)
  valueAndGradient x _ := counting_announces limit .valueAndGradient ⟨3⟩ ⟨2⟩ (.cell x) <|
    Terms.squaredDistance_silent _ _ _
  prox _ _ _ := ProximalTerm.announcing_announces _ (Terms.proxNonNegative_silent _ _)

/-- Where a run stands before its iteration `n + 1`, if it comes to it. -/
def standing? (objective : Objective Value) (plan : Plan Value) (x : Cell) (begun : Memory Value)
    (n : Nat) : Option (Workspace Value × Memory Value) :=
  match (setUp plan x).outcome begun with
  | (.ok (count, w, first), prepared) =>
    match (afterIterations objective plan w first n).outcome prepared with
    | (.ok _, m) => if n < count then some (w, m) else none
    | (.error _, _) => none
  | (.error _, _) => none

theorem exists_of_standing? {n : Nat} {w : Workspace Value} {m : Memory Value}
    (stands : standing? objective plan x begun n = some (w, m)) :
    ∃ count first prepared s, (setUp plan x).outcome begun = (.ok (count, w, first), prepared) ∧
      n < count ∧ (afterIterations objective plan w first n).outcome prepared = (.ok s, m) := by
  unfold standing? at stands
  split at stands
  case h_2 => cases stands
  case h_1 count w first prepared ran =>
    split at stands
    case h_2 => cases stands
    case h_1 s m reached =>
      split at stands
      case isFalse => cases stands
      case isTrue bound =>
        cases stands
        exact ⟨count, first, prepared, s, ran, bound, reached⟩

def fails {α : Type} (outcome : Except Fault α × Memory Value) : Bool :=
  !outcome.1.isOk

theorem exists_of_fails {α : Type} {outcome : Except Fault α × Memory Value}
    (failed : fails outcome = true) : ∃ fault m, outcome = (.error fault, m) := by
  obtain ⟨result, m⟩ := outcome
  cases result with
  | ok value => cases failed
  | error fault => exact ⟨fault, m, rfl⟩

def failsAsking (objective : Objective Value) (plan : Plan Value) (x : Cell)
    (begun : Memory Value) (n : Nat) : Bool :=
  (standing? objective plan x begun n).any fun (w, m) =>
    fails ((askSmooth objective plan w).outcome m)

theorem exists_of_failsAsking {n : Nat} (asking : failsAsking objective plan x begun n = true) :
    ∃ count w first prepared s m fault m',
      (setUp plan x).outcome begun = (.ok (count, w, first), prepared) ∧ n < count ∧
      (afterIterations objective plan w first n).outcome prepared = (.ok s, m) ∧
      (askSmooth objective plan w).outcome m = (.error fault, m') := by
  obtain ⟨⟨w, m⟩, stands, failed⟩ := (Option.any_eq_true _ _).mp asking
  obtain ⟨count, first, prepared, s, ran, bound, reached⟩ := exists_of_standing? stands
  obtain ⟨fault, m', asked⟩ := exists_of_fails failed
  exact ⟨count, w, first, prepared, s, m, fault, m', ran, bound, reached, asked⟩

/-- A run of two iterations whose smooth term fails in the second, with a history beside. -/
theorem announcedDistance_failure_keeps_iterate :
    ∃ fault m m' new values,
      (minimize (pure (announcedDistance 1 (doubles [0, 0])))
        ((halfSteps 2).observing false (some ⟨1⟩)) ⟨0⟩).outcome
        (besideCounters (doubles [1, -2]) (doubles [7, 7])) = (.error fault, m') ∧
      (minimize (pure (announcedDistance 1 (doubles [0, 0])))
        ((halfSteps 1).observing false (some ⟨1⟩)) ⟨0⟩).outcome
        (besideCounters (doubles [1, -2]) (doubles [7, 7])) = (.ok ⟨0⟩, m) ∧
      m'.content ⟨0⟩ = m.content ⟨0⟩ ∧ m'.turns.count .prox = 1 ∧
      m'.content ⟨1⟩ = some (.array new) ∧ values.length = 1 ∧
      Recorded (doubles [7, 7]) values new := by
  have fails : failsAsking (announcedDistance 1 (doubles [0, 0]))
      ((halfSteps 2).observing false (some ⟨1⟩)) ⟨0⟩
      (besideCounters (doubles [1, -2]) (doubles [7, 7])) 1 = true := by
    decide +kernel
  obtain ⟨count, w, first, prepared, s, m, fault, m', ran, bound, reached, failed⟩ :=
    exists_of_failsAsking fails
  have separate : Separate {⟨2⟩, ⟨3⟩} ((halfSteps 2).observing false (some ⟨1⟩)) ⟨0⟩
      (besideCounters (doubles [1, -2]) (doubles [7, 7])) := by
    refine ⟨by simp, ?_, ?_, ?_⟩ <;> rintro _ ⟨⟩ <;> decide
  obtain ⟨stops, shorter, same, _, turns, recorded⟩ :=
    (evaluation_failure_keeps_iterate (announcedDistance_contained 1 (doubles [0, 0]))
      (announcedDistance_announced 1 (doubles [0, 0])) separate).1 count w first prepared 1 s m
      fault m' ran bound reached failed
  obtain ⟨new, held, length, records⟩ := recorded ⟨1⟩ (doubles [7, 7]) rfl rfl
  exact ⟨fault, m, m', new, _, stops, shorter, same, turns, held, length, records⟩

def integersAt (m : Memory Value) (c : Cell) : List Int :=
  match m.content c with
  | some (.array a) => a.data.entries.filterMap fun
    | .int i => some i
    | _ => none
  | _ => []

/-- A run of two iterations from a point, whose smooth term fails in the second, beside a buffer and
with some cell as the history. -/
def failingRun (x : List Int) (buffer : NDArray) (history : Cell) :
    Except Fault Cell × Memory Value :=
  (minimize (pure (announcedDistance 1 (doubles (x.map fun _ => 0))))
    ((halfSteps 2).observing false (some history)) ⟨0⟩).outcome (besideCounters (doubles x) buffer)

def valueAtPoint (x : List Int) : Except Fault Binary :=
  (Terms.squaredDistanceFrom (.array (doubles (x.map fun _ => 0))) (.array (doubles x))).toLiteral

/-- A history of integers keeps the value of the iteration that succeeded without its fraction. One
that is the iterate itself keeps neither that value nor the entry after it. -/
theorem histories_of_failed_runs_differ :
    (∀ limit y, (announcedDistance limit y).Contained {⟨2⟩, ⟨3⟩}) ∧
      (∀ limit y, (announcedDistance limit y).Announced) ∧
      (failingRun [5] ⟨.int64, .ofList [.int 7, .int 7]⟩ ⟨1⟩).1 = .error (.term .gradient) ∧
      valueAtPoint [5] = .ok (Binary.ofDecimal .double false 125 (-1)) ∧
      integersAt (failingRun [5] ⟨.int64, .ofList [.int 7, .int 7]⟩ ⟨1⟩).2 ⟨1⟩ = [12, 7] ∧
      (failingRun [10, 10] (doubles []) ⟨0⟩).1 = .error (.term .gradient) ∧
      valueAtPoint [10, 10] = .ok (Binary.ofInt .double 100) ∧
      realsAt (failingRun [10, 10] (doubles []) ⟨0⟩).2 ⟨0⟩ =
        [Binary.ofInt .double 95, Binary.ofInt .double 5] := by
  refine ⟨announcedDistance_contained, announcedDistance_announced, ?_, ?_, ?_, ?_, ?_, ?_⟩
  all_goals decide +kernel

/-! ## Proximal maps that fail -/

/-- Where no proximal map is registered for the options of a term, it does nothing before it
fails. -/
theorem outcome_prox_of_unresolved {world : Session.World} {g options : Session.Handle}
    (carried : world.optionsOf g = .ok options)
    (unresolved : Session.resolve? world .prox g options = none) (y : Ref Value) (step : Value)
    (out : Cell) (m : Memory Value) :
    ((Session.proximalTerm world g).prox y step out).outcome m = (.error .notImplemented, m) := by
  have applied : (Session.applyProximal world .prox g none y (some step) (some out)).outcome m =
      (.error .notImplemented, m) := by
    have chosen : (Action.lift (Session.chosenOptions world g none)).outcome m =
        (.ok options, m) := by
      rw [Session.chosenOptions, carried, Action.outcome_lift]
    rw [Session.applyProximal, Action.outcome_bind_of_ok chosen,
      Action.outcome_bind_of_ok (Action.outcome_pure out m)]
    simp only [unresolved]
    exact Action.outcome_bind_of_error (Action.outcome_throw _ _)
  exact Action.outcome_bind_of_error applied

/-- What a run leaves whose proximal term fails in iteration `n + 1`. -/
theorem proximal_failure_leaves_destination (contained : objective.Contained own)
    (separate : Separate own plan x begun) :
    (∀ count w first prepared n s m m₁ fault m',
      (setUp plan x).outcome begun = (.ok (count, w, first), prepared) → n < count →
      (afterIterations objective plan w first n).outcome prepared = (.ok s, m) →
      (evaluate objective plan w (n + 1)).outcome m = (.ok (), m₁) →
      (proximalStep objective w).outcome m₁ = (.error fault, m') →
      (minimize (pure objective) plan x).outcome begun = (.error fault, m') ∧
      (minimize (pure objective) { plan with iterations := some n } x).outcome begun =
        (.ok x, m) ∧
      (n = 0 → m.content x = begun.content x) ∧ m₁.content x = m.content x ∧
      (w.proximal = x ↔ plan.accelerated = false) ∧
      (plan.accelerated = true ∨ m'.content w.proximal = m₁.content w.proximal →
        m'.content x = m.content x)) ∧
    ∀ (world : Session.World) g options, world.optionsOf g = .ok options →
      Session.resolve? world .prox g options = none → ∀ y step out m,
      ((Session.proximalTerm world g).prox y step out).outcome m = (.error .notImplemented, m) := by
  constructor
  · intro count w first prepared n s m m₁ fault m' ran bound reached evaluated failed
    have opened := opened_of_setUp ran
    have larger := size_le_of_afterIterations contained reached
    have existing : x.index < m.cells.size :=
      Nat.lt_of_lt_of_le opened.existing (opened.larger.trans larger)
    have fails : (iteration objective plan w (n + 1) s).outcome m = (.error fault, m') := by
      rw [iteration_eq, Action.outcome_bind_of_ok evaluated]
      exact Action.outcome_bind_of_error failed
    have kept := content_of_evaluate contained separate opened evaluated existing
    obtain ⟨v, held⟩ := Memory.exists_content existing
    have destination := proximal_of_setUp ran
    refine ⟨outcome_minimize_of_failed ran bound reached fails, outcome_shorter ran reached, ?_,
      kept, destination, ?_⟩
    · rintro rfl
      cases reached
      exact opened.content x opened.existing
    · intro either
      by_cases same : w.proximal = x
      · have left := either.resolve_left (by simp [destination.mp same])
        rw [← kept, ← same, left]
      · rw [held]
        refine (proximalStep_within contained w).content failed ?_ (kept.trans held)
        simp [Ne.symm same, separate.iterate_foreign]
  · intro world g options carried unresolved y step out m
    exact outcome_prox_of_unresolved carried unresolved y step out m

def failsStepping (objective : Objective Value) (plan : Plan Value) (x : Cell)
    (begun : Memory Value) (n : Nat) : Bool :=
  (standing? objective plan x begun n).any fun (w, m) =>
    match (evaluate objective plan w (n + 1)).outcome m with
    | (.ok _, m₁) => fails ((proximalStep objective w).outcome m₁)
    | (.error _, _) => false

theorem exists_of_failsStepping {n : Nat}
    (stepping : failsStepping objective plan x begun n = true) :
    ∃ count w first prepared s m m₁ fault m',
      (setUp plan x).outcome begun = (.ok (count, w, first), prepared) ∧ n < count ∧
      (afterIterations objective plan w first n).outcome prepared = (.ok s, m) ∧
      (evaluate objective plan w (n + 1)).outcome m = (.ok (), m₁) ∧
      (proximalStep objective w).outcome m₁ = (.error fault, m') := by
  obtain ⟨⟨w, m⟩, stands, failed⟩ := (Option.any_eq_true _ _).mp stepping
  obtain ⟨count, first, prepared, s, ran, bound, reached⟩ := exists_of_standing? stands
  dsimp only at failed
  cases evaluated : (evaluate objective plan w (n + 1)).outcome m with
  | mk result m₁ =>
    rw [evaluated] at failed
    cases result with
    | error fault => cases failed
    | ok _ =>
      obtain ⟨fault, m', stepped⟩ := exists_of_fails failed
      exact ⟨count, w, first, prepared, s, m, m₁, fault, m', ran, bound, reached, evaluated,
        stepped⟩

/-- The squared distance within a limit, over the points without negative entries, whose proximal
map is stored before it fails: as soon as there were as many gradients as a limit says. -/
def brittleDistance (limit : Nat) (y : NDArray) : Objective Value where
  smooth := (distanceWithin (limit + 1) y).smooth
  proximal := {
    prox := fun point _ out => do
      Terms.proxNonNegative point out
      let gradients ← readCount ⟨2⟩
      if limit ≤ gradients then throw (.term .prox)
    value := fun _ => throw .noField }

theorem brittleDistance_contained (limit : Nat) (y : NDArray) :
    (brittleDistance limit y).Contained {⟨2⟩, ⟨3⟩} where
  gradient := (announcedDistance_contained (limit + 1) y).gradient
  valueAndGradient := (announcedDistance_contained (limit + 1) y).valueAndGradient
  prox _ _ _ := by
    refine .bind (Terms.proxNonNegative_within _ (by simp)) fun _ =>
      .bind (.of_still (still_readCount _)) fun gradients => ?_
    split
    · exact .of_still (Action.still_throw _)
    · exact .of_still (Action.still_pure _)

/-- A memory with a point and two counters that have counted nothing. -/
def fromPoint (x : List Int) : Memory Value :=
  besideCounters (doubles x) (doubles [])

/-- An accelerated run of two iterations whose proximal map fails in the second, after it was
stored. -/
theorem brittleDistance_failure_keeps_iterate :
    ∃ fault m m',
      (minimize (pure (brittleDistance 2 (doubles [0, 0]))) (halfSteps 2) ⟨0⟩).outcome
        (fromPoint [4, 8]) = (.error fault, m') ∧
      (minimize (pure (brittleDistance 2 (doubles [0, 0]))) (halfSteps 1) ⟨0⟩).outcome
        (fromPoint [4, 8]) = (.ok ⟨0⟩, m) ∧
      m'.content ⟨0⟩ = m.content ⟨0⟩ := by
  have stepping : failsStepping (brittleDistance 2 (doubles [0, 0])) (halfSteps 2) ⟨0⟩
      (fromPoint [4, 8]) 1 = true := by
    decide +kernel
  obtain ⟨count, w, first, prepared, s, m, m₁, fault, m', ran, bound, reached, evaluated, failed⟩ :=
    exists_of_failsStepping stepping
  have separate : Separate {⟨2⟩, ⟨3⟩} (halfSteps 2) ⟨0⟩ (fromPoint [4, 8]) := by
    refine ⟨by simp, ?_, ?_, ?_⟩ <;> rintro _ ⟨⟩
  obtain ⟨stops, shorter, _, _, _, kept⟩ :=
    (proximal_failure_leaves_destination (brittleDistance_contained 2 (doubles [0, 0]))
      separate).1 count w first prepared 1 s m m₁ fault m' ran bound reached evaluated failed
  exact ⟨fault, m, m', stops, shorter, kept (.inl rfl)⟩

/-- A point, the origin, and a weight of one real and one complex number, with the squared distance
from the origin and the squared norm of that weight. -/
def besideMixedWeight : Session.World where
  memory := { cells := #[.array (doubles [3, 4]), .array (doubles [0, 0]),
    .array ⟨.object, .ofList [.real (Binary.ofInt .double 1),
      .complex .zero (Binary.ofInt .double 1)]⟩] }
  objects := #[{ cls := .exactArgmin }, { cls := .squaredDistance, fields := [("y", .data ⟨1⟩)] },
    { cls := .ridge, fields := [("weight", .data ⟨2⟩)] }]

/-- The first proximal point has a complex entry after a real one: the real one is stored, and then
the map fails. In a run that does not extrapolate it was stored into the iterate. -/
theorem mixed_weight_overwrites_iterate :
    let w := besideMixedWeight
    let objective : Objective Value :=
      { smooth := Session.smoothTerm w (.object 1), proximal := Session.proximalTerm w (.object 2) }
    let run (accelerated : Bool) :=
      (minimize (pure objective) { halfSteps 1 with accelerated } ⟨0⟩).outcome w.memory
    (run false).1 = .error (.conversion (.notReal "complex")) ∧
      (run true).1 = .error (.conversion (.notReal "complex")) ∧
      realsAt (run true).2 ⟨0⟩ = [Binary.ofInt .double 3, Binary.ofInt .double 4] ∧
      realsAt (run false).2 ⟨0⟩ = [Binary.ofInt .double 1, Binary.ofInt .double 4] := by
  refine ⟨?_, ?_, ?_, ?_⟩
  all_goals decide +kernel

end Fista

end ProxGrad
