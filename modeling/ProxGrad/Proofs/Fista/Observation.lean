import ProxGrad.Proofs.Likeness
import ProxGrad.Proofs.Fista.Run

/-!
# What an observer of a run sees

The calls to the smooth term, the lines reported, and the entries of the history. `Observed` says
what they are after a number of iterations, in terms of the iterates at which the term was called
and of those at which it gave a value. Every plan keeps it, and a run that fails keeps it as well.
-/

set_option autoImplicit false

namespace ProxGrad

variable {V : Type}

/-! ## Calls -/

def Call.evaluation? : Call V → Option (Evaluation × V)
  | .evaluation kind point => some (kind, point)
  | _ => none

def Memory.evaluations (m : Memory V) : List (Evaluation × V) :=
  m.calls.toList.filterMap Call.evaluation?

/-- A later memory with the same content of a cell and the same reports, with these evaluations
added, and with no cell lost. -/
structure Memory.Spares (buffer : Cell) (calls : List (Evaluation × V)) (m m' : Memory V) :
    Prop where
  content : m'.content buffer = m.content buffer
  reports : m'.reports = m.reports
  evaluations : m'.evaluations = m.evaluations ++ calls
  larger : m.cells.size ≤ m'.cells.size

theorem Memory.Spares.refl (buffer : Cell) (m : Memory V) : m.Spares buffer [] m :=
  ⟨rfl, rfl, by simp, Nat.le_refl _⟩

theorem Memory.Spares.put {buffer c : Cell} (different : buffer ≠ c) (m : Memory V) (v : V) :
    m.Spares buffer [] (m.put c v) :=
  ⟨content_put_of_ne different m v, rfl, by simp [Memory.evaluations], by simp⟩

theorem Memory.Spares.trans {buffer : Cell} {calls calls' : List (Evaluation × V)}
    {m m' m'' : Memory V} (first : m.Spares buffer calls m')
    (second : m'.Spares buffer calls' m'') : m.Spares buffer (calls ++ calls') m'' where
  content := second.content.trans first.content
  reports := second.reports.trans first.reports
  evaluations := by rw [second.evaluations, first.evaluations, List.append_assoc]
  larger := first.larger.trans second.larger

/-- An action that spares a cell and evaluates no smooth term, whether it succeeds or not. -/
def Action.Sparing {α : Type} (buffer : Cell) (a : Action V α) : Prop :=
  ∀ m : Memory V, m.Spares buffer [] (a.outcome m).2

namespace Action.Sparing

variable {α β : Type} {buffer c : Cell}

theorem bind {a : Action V α} {next : α → Action V β} (first : a.Sparing buffer)
    (rest : ∀ value, (next value).Sparing buffer) : (a >>= next).Sparing buffer := by
  intro m
  have spared := first m
  rw [outcome_bind]
  cases ran : a.outcome m with
  | mk result m' =>
      rw [ran] at spared
      cases result with
      | ok value => exact spared.trans (rest value m')
      | error fault => exact spared

theorem lift (result : Except Fault α) : (Action.lift result : Action V α).Sparing buffer :=
  fun m => .refl buffer m

theorem pure (value : α) : (Pure.pure value : Action V α).Sparing buffer :=
  fun m => .refl buffer m

theorem read (c : Cell) : (Action.read c : Action V V).Sparing buffer := by
  intro m
  cases held : m.content c with
  | none =>
      rw [outcome_read_of_none held]
      exact .refl buffer m
  | some v =>
      rw [outcome_read held]
      exact .refl buffer m

theorem readRef (r : Ref V) : (Action.readRef r).Sparing buffer := by
  cases r with
  | cell c => exact read c
  | const v => exact pure v

theorem store [Calculus V] (different : buffer ≠ c) (v : V) :
    (Action.store c v).Sparing buffer := by
  refine bind (read c) fun old => bind ?_ fun _ => lift _
  exact fun m => .put different m _

end Action.Sparing

/-! ## Terms -/

/-- The calls that an evaluation adds if it announces itself. -/
def Evaluation.announced (kind : Evaluation) (p : V) : List (Evaluation × V) :=
  [(kind, p)]

/-- The calls that an evaluation adds if it does not. -/
def Evaluation.unheard (_ : Evaluation) (_ : V) : List (Evaluation × V) :=
  []

/-- A smooth term whose two evaluations write alike and fail alike, whatever the observer's buffer
holds. A value that it returns is that of `f` at the point. The calls seen are these, and the buffer
and the reports are left to the solver. -/
structure SmoothTerm.Observable (term : SmoothTerm V) (own : Likeness V) (buffer : Cell) (f : V → V)
    (seen : Evaluation → V → List (Evaluation × V)) : Prop where
  alike {m₁ m₂ : Memory V} {x out : Cell} {p : V} : m₁.Agree own buffer m₂ → x ≠ out →
    x ∉ own.cells → x ≠ buffer → out ∉ own.cells → out ≠ buffer → m₁.content x = some p →
    Alike own buffer (fun _ _ => True) ((term.gradient (.cell x) out).outcome m₁)
      ((term.valueAndGradient (.cell x) out).outcome m₂)
  value {m₁ m m' : Memory V} {x out : Cell} {p v : V} : m₁.Agree own buffer m → x ∉ own.cells →
    m.content x = some p → (term.valueAndGradient (.cell x) out).outcome m = (.ok v, m') → v = f p
  gradient {m : Memory V} {x out : Cell} {p : V} : out ≠ buffer → m.content x = some p →
    m.Spares buffer (seen .gradient p) ((term.gradient (.cell x) out).outcome m).2
  valueAndGradient {m : Memory V} {x out : Cell} {p : V} : out ≠ buffer → m.content x = some p →
    m.Spares buffer (seen .valueAndGradient p)
      ((term.valueAndGradient (.cell x) out).outcome m).2

/-- A proximal term that does the same whatever the observer's buffer holds, and leaves it alone. -/
structure ProximalTerm.Observable (term : ProximalTerm V) (own : Likeness V) (buffer : Cell) :
    Prop where
  alike {m₁ m₂ : Memory V} {out : Cell} (y step : V) : m₁.Agree own buffer m₂ →
    out ∉ own.cells → out ≠ buffer →
    Alike own buffer (fun a b => a = b) ((term.prox (.const y) step out).outcome m₁)
      ((term.prox (.const y) step out).outcome m₂)
  sparing {out : Cell} (y step : V) : out ≠ buffer → (term.prox (.const y) step out).Sparing buffer

/-- An objective of such terms, the smooth one announced. -/
structure Objective.Observable (objective : Objective V) (own : Likeness V) (buffer : Cell)
    (f : V → V) : Prop where
  smooth : objective.smooth.Observable own buffer f Evaluation.announced
  proximal : objective.proximal.Observable own buffer

/-! ## Instruments -/

def Plan.observing (plan : Plan V) (verbose : Bool) (history : Option Cell) : Plan V :=
  { plan with verbose, history }

/-- The evaluation that a plan asks for. -/
def Plan.kind (plan : Plan V) : Evaluation :=
  if plan.observed then .valueAndGradient else .gradient

namespace Fista

def numbered (values : List V) : List (Nat × V) :=
  values.zipIdx.map fun (v, i) => (i + 1, v)

theorem numbered_concat (values : List V) (v : V) :
    numbered (values ++ [v]) = numbered values ++ [(values.length + 1, v)] := by
  simp [numbered, List.zipIdx_append]

/-! ## Cells of a run -/

/-- How the cells of a run lie to an observer's buffer and to the cells of terms. -/
structure Visible (own : Likeness V) (buffer : Cell) (w : Workspace V) : Prop where
  iterate_ne_gradient : w.iterate ≠ w.gradient
  iterate_foreign : w.iterate ∉ own.cells
  proximal_foreign : w.proximal ∉ own.cells
  gradient_foreign : w.gradient ∉ own.cells
  buffer_foreign : buffer ∉ own.cells
  iterate_ne_buffer : w.iterate ≠ buffer
  proximal_ne_buffer : w.proximal ≠ buffer
  gradient_ne_buffer : w.gradient ≠ buffer

variable {objective : Objective V} {plan : Plan V} {own : Likeness V} {buffer : Cell} {f : V → V}
  {w : Workspace V} {m m' : Memory V}

/-- What an observed plan would get as a value on this memory is that of `f`. -/
def Valued (objective : Objective V) (plan : Plan V) (f : V → V) (w : Workspace V) (m : Memory V) :
    Prop :=
  plan.observed = true → ∀ p v m', m.content w.iterate = some p →
    (objective.smooth.valueAndGradient (.cell w.iterate) w.gradient).outcome m = (.ok v, m') →
    v = f p

theorem valued_of_agree (observable : objective.Observable own buffer f)
    (visible : Visible own buffer w) (agree : m.Agree own buffer m') :
    Valued objective plan f w m' :=
  fun _ _ _ _ held ran => observable.smooth.value agree visible.iterate_foreign held ran

theorem valued_of_not_observed (silent : plan.observed = false) : Valued objective plan f w m :=
  fun asks => by simp [silent] at asks

/-! ## Points -/

variable [Calculus V]

/-- The iterate at which iteration `n + 1` calls the smooth term, if it starts. -/
def startedPoint? (objective : Objective V) (plan : Plan V) (w : Workspace V) (first : State V)
    (prepared : Memory V) (n : Nat) : Option V :=
  match (afterIterations objective plan w first n).outcome prepared with
  | (.ok _, m) => m.content w.iterate
  | (.error _, _) => none

/-- The iterate at which the evaluation of iteration `n + 1` succeeds, if it does. -/
def computedPoint? (objective : Objective V) (plan : Plan V) (w : Workspace V) (first : State V)
    (prepared : Memory V) (n : Nat) : Option V :=
  match (afterIterations objective plan w first n).outcome prepared with
  | (.ok _, m) =>
    match (evaluate objective plan w (n + 1)).outcome m with
    | (.ok _, _) => m.content w.iterate
    | (.error _, _) => none
  | (.error _, _) => none

def startedPoints (objective : Objective V) (plan : Plan V) (w : Workspace V) (first : State V)
    (prepared : Memory V) (n : Nat) : List V :=
  (List.range n).filterMap (startedPoint? objective plan w first prepared)

def computedPoints (objective : Objective V) (plan : Plan V) (w : Workspace V) (first : State V)
    (prepared : Memory V) (n : Nat) : List V :=
  (List.range n).filterMap (computedPoint? objective plan w first prepared)

def entered (buffer : V) (values : List V) : Except Fault V :=
  values.zipIdx.foldlM (fun buffer (v, i) => Calculus.setEntry buffer i v) buffer

theorem entered_concat {buffer new : V} {values : List V} (stored : entered buffer values = .ok new)
    (v : V) : entered buffer (values ++ [v]) = Calculus.setEntry new values.length v := by
  rw [entered] at stored
  rw [entered, List.zipIdx_append, List.foldlM_append, stored, Nat.zero_add]
  change (Calculus.setEntry new values.length v >>= pure) = _
  exact bind_pure _

/-- What an observer sees of a run that began with some content of the buffer: the calls, the lines
of a verbose run, and the entries of a history. -/
structure Observed (plan : Plan V) (buffer : Cell) (f : V → V) (old : V) (begun : Memory V)
    (started computed : List V) (m : Memory V) : Prop where
  evaluations : m.evaluations = begun.evaluations ++ started.map fun p => (plan.kind, p)
  reports : m.reports.toList =
    begun.reports.toList ++ if plan.verbose then numbered (computed.map f) else []
  content : ∃ new, m.content buffer = some new ∧
    entered old (if plan.history.isSome then computed.map f else []) = .ok new

variable {old : V} {begun : Memory V} {started computed : List V}

theorem Observed.spared (observed : Observed plan buffer f old begun started computed m)
    (points : List V) (spared : m.Spares buffer (points.map fun p => (plan.kind, p)) m') :
    Observed plan buffer f old begun (started ++ points) computed m' where
  evaluations := by
    rw [spared.evaluations, observed.evaluations, List.map_append, List.append_assoc]
  reports := by rw [spared.reports, observed.reports]
  content := by
    obtain ⟨new, held, stored⟩ := observed.content
    exact ⟨new, spared.content.trans held, stored⟩

def noteValue (plan : Plan V) (n : Nat) (value : V) : Action V Unit := do
  remember plan (n + 1) value
  announce plan (n + 1) value

theorem Observed.noted (observed : Observed plan buffer f old begun started computed m)
    (chosen : ∀ h, plan.history = some h → h = buffer) {p : V}
    (takes : plan.history.isSome → ∃ new, entered old ((computed ++ [p]).map f) = .ok new) :
    ∃ m', (noteValue plan computed.length (f p)).outcome m = (.ok (), m') ∧
      Observed plan buffer f old begun started (computed ++ [p]) m' ∧
      m'.cells.size = m.cells.size := by
  obtain ⟨evaluations, reports, new, held, stored⟩ := observed
  have lines (added : Array (Nat × V)) (same : added.toList = m.reports.toList ++
      if plan.verbose then [(computed.length + 1, f p)] else []) : added.toList =
      begun.reports.toList ++ if plan.verbose then numbered ((computed ++ [p]).map f) else [] := by
    rw [same, reports, List.map_append, List.map_singleton, numbered_concat, List.length_map]
    cases plan.verbose <;> simp
  cases kept : plan.history with
  | none =>
      obtain ⟨added, announced, same⟩ := outcome_announce plan (computed.length + 1) (f p) m
      refine ⟨{ m with reports := added }, ?_, ⟨evaluations, lines added same, new, held, ?_⟩, rfl⟩
      · have remembered := outcome_remember_of_no_history kept (computed.length + 1) (f p) m
        exact (Action.outcome_bind_of_ok remembered).trans announced
      · simpa [kept] using stored
  | some h =>
      obtain rfl := chosen h kept
      obtain ⟨new', entered'⟩ := takes (by simp [kept])
      rw [kept, Option.isSome_some, if_pos rfl] at stored
      have next : Calculus.setEntry new computed.length (f p) = .ok new' := by
        rwa [List.map_append, List.map_singleton, entered_concat stored,
          List.length_map] at entered'
      obtain ⟨added, announced, same⟩ :=
        outcome_announce plan (computed.length + 1) (f p) (m.put h new')
      refine ⟨{ m.put h new' with reports := added }, ?_,
        ⟨evaluations, lines added same, new', Memory.content_put_self held new', ?_⟩, by simp⟩
      · have remembered := outcome_remember_of_history kept held computed.length (f p)
        rw [next] at remembered
        exact (Action.outcome_bind_of_ok remembered).trans announced
      · simpa [kept] using entered'

/-- A value is noted as the next one, unless the history does not take it. -/
theorem Observed.noted_or_refused (observed : Observed plan buffer f old begun started computed m)
    (chosen : ∀ h, plan.history = some h → h = buffer) (p : V) :
    (∃ m', (noteValue plan computed.length (f p)).outcome m = (.ok (), m') ∧
      Observed plan buffer f old begun started (computed ++ [p]) m' ∧
      m'.cells.size = m.cells.size) ∨
    ∃ fault, (noteValue plan computed.length (f p)).outcome m = (.error fault, m) := by
  cases kept : plan.history with
  | none => exact .inl (observed.noted chosen fun some => by simp [kept] at some)
  | some h =>
      obtain rfl := chosen h kept
      obtain ⟨new, held, stored⟩ := observed.content
      rw [kept, Option.isSome_some, if_pos rfl] at stored
      have remembered := outcome_remember_of_history kept held computed.length (f p)
      cases next : Calculus.setEntry new computed.length (f p) with
      | ok new' =>
          refine .inl (observed.noted chosen fun _ => ⟨new', ?_⟩)
          rw [List.map_append, List.map_singleton, entered_concat stored, List.length_map, next]
      | error fault =>
          rw [next] at remembered
          exact .inr ⟨fault, Action.outcome_bind_of_error remembered⟩

/-! ## Iterations -/

def moveOn (objective : Objective V) (plan : Plan V) (w : Workspace V) (n : Nat) (s : State V) :
    Action V (State V) := do
  proximalStep objective w
  if plan.accelerated then accelerate plan w n s else return s

theorem iteration_eq (objective : Objective V) (plan : Plan V) (w : Workspace V) (n : Nat)
    (s : State V) :
    iteration objective plan w n s =
      (evaluate objective plan w n >>= fun _ => moveOn objective plan w n s) := rfl

theorem evaluate_of_observed (asks : plan.observed = true) (objective : Objective V)
    (w : Workspace V) (n : Nat) :
    evaluate objective plan w (n + 1) =
      (objective.smooth.valueAndGradient (.cell w.iterate) w.gradient >>= noteValue plan n) :=
  if_pos asks

theorem evaluate_of_not_observed (silent : plan.observed = false) (objective : Objective V)
    (w : Workspace V) (n : Nat) :
    evaluate objective plan w (n + 1) =
      objective.smooth.gradient (.cell w.iterate) w.gradient := by
  rw [evaluate, silent]
  rfl

theorem moveOn_sparing (observable : objective.Observable own buffer f)
    (visible : Visible own buffer w) (plan : Plan V) (n : Nat) (s : State V) :
    (moveOn objective plan w n s).Sparing buffer := by
  have steps : (proximalStep objective w).Sparing buffer :=
    .bind (.read _) fun x => .bind (.read _) fun g => .bind (.lift _) fun y => .bind (.lift _)
      fun step => observable.proximal.sparing y step visible.proximal_ne_buffer
  refine .bind steps fun _ => ?_
  cases plan.accelerated with
  | false => exact .pure s
  | true =>
      exact .bind (.lift _) fun next => .bind (.read _) fun z => .bind (.lift _) fun moved =>
        .bind (.store visible.iterate_ne_buffer.symm moved) fun _ => .bind (.lift _) fun _ =>
          .pure _

theorem Observed.of_not_observed (silent : plan.observed = false)
    (observed : Observed plan buffer f old begun started computed m) (computed' : List V) :
    Observed plan buffer f old begun started computed' m := by
  have quiet : plan.verbose = false ∧ plan.history.isSome = false := by
    simpa [Plan.observed] using silent
  obtain ⟨evaluations, reports, content⟩ := observed
  rw [quiet.1] at reports
  rw [quiet.2] at content
  refine ⟨evaluations, ?_, ?_⟩
  · rw [quiet.1, reports]
    rfl
  · rw [quiet.2]
    exact content

/-- An evaluation is seen as a call at the iterate, and its value if it succeeds. -/
theorem Observed.evaluated (observable : objective.Observable own buffer f)
    (visible : Visible own buffer w) (chosen : ∀ h, plan.history = some h → h = buffer)
    (observed : Observed plan buffer f old begun started computed m)
    (valued : Valued objective plan f w m) {p : V}
    (held : m.content w.iterate = some p) :
    (∃ m', (evaluate objective plan w (computed.length + 1)).outcome m = (.ok (), m') ∧
      Observed plan buffer f old begun (started ++ [p]) (computed ++ [p]) m' ∧
      m.cells.size ≤ m'.cells.size) ∨
    ∃ fault m', (evaluate objective plan w (computed.length + 1)).outcome m = (.error fault, m') ∧
      Observed plan buffer f old begun (started ++ [p]) computed m' ∧
      m.cells.size ≤ m'.cells.size := by
  cases asks : plan.observed with
  | false =>
      have kind : plan.kind = .gradient := by simp [Plan.kind, asks]
      have spared := observable.smooth.gradient visible.gradient_ne_buffer held
      rw [evaluate_of_not_observed asks]
      cases ran : (objective.smooth.gradient (.cell w.iterate) w.gradient).outcome m with
      | mk result m' =>
          rw [ran, ← kind] at spared
          have called := observed.spared [p] spared
          cases result with
          | ok _ => exact .inl ⟨m', rfl, called.of_not_observed asks _, spared.larger⟩
          | error fault => exact .inr ⟨fault, m', rfl, called, spared.larger⟩
  | true =>
      have kind : plan.kind = .valueAndGradient := by simp [Plan.kind, asks]
      have spared := observable.smooth.valueAndGradient visible.gradient_ne_buffer held
      rw [evaluate_of_observed asks]
      cases ran : (objective.smooth.valueAndGradient (.cell w.iterate) w.gradient).outcome m with
      | mk result m₁ =>
          rw [ran, ← kind] at spared
          have called := observed.spared [p] spared
          cases result with
          | error fault =>
              exact .inr ⟨fault, m₁, Action.outcome_bind_of_error ran, called, spared.larger⟩
          | ok value =>
              obtain rfl := valued asks p value m₁ held ran
              rw [Action.outcome_bind_of_ok ran]
              rcases called.noted_or_refused chosen p with
                ⟨m', noted, observed', size⟩ | ⟨fault, refused⟩
              · exact .inl ⟨m', noted, observed', spared.larger.trans_eq size.symm⟩
              · exact .inr ⟨fault, m₁, refused, called, spared.larger⟩

/-! ## Runs -/

private theorem filterMap_range_succ {α : Type} (g : Nat → Option α) (n : Nat) :
    (List.range (n + 1)).filterMap g = (List.range n).filterMap g ++ (g n).toList := by
  rw [List.range_succ, List.filterMap_append]
  cases found : g n <;> simp [found]

theorem startedPoints_succ (objective : Objective V) (plan : Plan V) (w : Workspace V)
    (first : State V) (prepared : Memory V) (n : Nat) :
    startedPoints objective plan w first prepared (n + 1) =
      startedPoints objective plan w first prepared n ++
        (startedPoint? objective plan w first prepared n).toList :=
  filterMap_range_succ _ n

theorem computedPoints_succ (objective : Objective V) (plan : Plan V) (w : Workspace V)
    (first : State V) (prepared : Memory V) (n : Nat) :
    computedPoints objective plan w first prepared (n + 1) =
      computedPoints objective plan w first prepared n ++
        (computedPoint? objective plan w first prepared n).toList :=
  filterMap_range_succ _ n

theorem length_computedPoints_le (objective : Objective V) (plan : Plan V) (w : Workspace V)
    (first : State V) (prepared : Memory V) (n : Nat) :
    (computedPoints objective plan w first prepared n).length ≤ n := by
  have bound := List.length_filterMap_le (computedPoint? objective plan w first prepared)
    (List.range n)
  rwa [List.length_range] at bound

theorem mem_computedPoints_of_le {first : State V} {prepared : Memory V} {n count : Nat} {p : V}
    (bound : n ≤ count) (member : p ∈ computedPoints objective plan w first prepared n) :
    p ∈ computedPoints objective plan w first prepared count := by
  obtain ⟨k, among, found⟩ := List.mem_filterMap.mp member
  exact List.mem_filterMap.mpr
    ⟨k, List.mem_range.mpr (Nat.lt_of_lt_of_le (List.mem_range.mp among) bound), found⟩

variable {first : State V} {prepared : Memory V}

theorem outcome_afterIterations_succ_of_error {n : Nat} {fault : Fault}
    (failed : (afterIterations objective plan w first n).outcome prepared = (.error fault, m)) :
    (afterIterations objective plan w first (n + 1)).outcome prepared = (.error fault, m) :=
  Action.outcome_bind_of_error failed

/-- What an observer sees of the first iterations of a run, failed or not. -/
structure Shown (objective : Objective V) (plan : Plan V) (buffer : Cell) (f : V → V) (old : V)
    (begun : Memory V) (w : Workspace V) (first : State V) (prepared : Memory V) (n : Nat) :
    Prop where
  observed : Observed plan buffer f old begun (startedPoints objective plan w first prepared n)
    (computedPoints objective plan w first prepared n)
    ((afterIterations objective plan w first n).outcome prepared).2
  larger : prepared.cells.size ≤
    ((afterIterations objective plan w first n).outcome prepared).2.cells.size
  count : ∀ s, ((afterIterations objective plan w first n).outcome prepared).1 = .ok s →
    (computedPoints objective plan w first prepared n).length = n

theorem Shown.zero (beginning : Observed plan buffer f old begun [] [] prepared) :
    Shown objective plan buffer f old begun w first prepared 0 :=
  ⟨beginning, Nat.le_refl _, fun _ _ => rfl⟩

theorem Shown.succ_of_error {n : Nat} {fault : Fault}
    (shown : Shown objective plan buffer f old begun w first prepared n)
    (failed : (afterIterations objective plan w first n).outcome prepared = (.error fault, m)) :
    Shown objective plan buffer f old begun w first prepared (n + 1) := by
  obtain ⟨observed, larger, _⟩ := shown
  rw [failed] at observed larger
  have after := outcome_afterIterations_succ_of_error failed
  have unstarted : startedPoint? objective plan w first prepared n = none := by
    simp only [startedPoint?, failed]
  have uncomputed : computedPoint? objective plan w first prepared n = none := by
    simp only [computedPoint?, failed]
  refine ⟨?_, ?_, ?_⟩
  · rw [startedPoints_succ, computedPoints_succ, unstarted, uncomputed, after]
    simpa using observed
  · rw [after]
    exact larger
  · rw [after]
    exact fun s same => nomatch same

/-- One more iteration shows an observer a call, a value if there is one, and nothing else. -/
theorem Shown.succ (observable : objective.Observable own buffer f)
    (visible : Visible own buffer w) (chosen : ∀ h, plan.history = some h → h = buffer)
    (existing : w.iterate.index < prepared.cells.size) {n : Nat}
    (shown : Shown objective plan buffer f old begun w first prepared n)
    (valued : Valued objective plan f w
      ((afterIterations objective plan w first n).outcome prepared).2) :
    Shown objective plan buffer f old begun w first prepared (n + 1) := by
  cases before : (afterIterations objective plan w first n).outcome prepared with
  | mk result₁ m₁ =>
  cases result₁ with
  | error fault => exact shown.succ_of_error before
  | ok s =>
      obtain ⟨observed, larger, count⟩ := shown
      rw [before] at observed larger count valued
      obtain ⟨p, held⟩ := Memory.exists_content (Nat.lt_of_lt_of_le existing larger)
      have begins : startedPoint? objective plan w first prepared n = some p := by
        simp only [startedPoint?, before, held]
      have evaluates := observed.evaluated observable visible chosen valued held
      rw [count s rfl] at evaluates
      have after := outcome_afterIterations_succ before
      rw [iteration_eq] at after
      rcases evaluates with ⟨m₂, evaluated, observed₂, larger₂⟩ |
        ⟨fault, m₂, failed, observed₂, larger₂⟩
      · have computes : computedPoint? objective plan w first prepared n = some p := by
          simp only [computedPoint?, before, evaluated, held]
        rw [Action.outcome_bind_of_ok evaluated] at after
        have spared := moveOn_sparing observable visible plan (n + 1) s m₂
        refine ⟨?_, ?_, fun s' _ => ?_⟩
        · rw [startedPoints_succ, computedPoints_succ, begins, computes, after]
          simpa using observed₂.spared [] spared
        · rw [after]
          exact larger.trans (larger₂.trans spared.larger)
        · rw [computedPoints_succ, computes, List.length_append, count s rfl]
          rfl
      · have uncomputed : computedPoint? objective plan w first prepared n = none := by
          simp only [computedPoint?, before, failed]
        rw [Action.outcome_bind_of_error failed] at after
        refine ⟨?_, ?_, ?_⟩
        · rw [startedPoints_succ, computedPoints_succ, begins, uncomputed, after]
          simpa using observed₂
        · rw [after]
          exact larger.trans larger₂
        · rw [after]
          exact fun s' same => nomatch same

/-- A plan without instruments shows an observer the calls. -/
theorem shown_of_not_observed (silent : plan.observed = false)
    (observable : objective.Observable own buffer f) (visible : Visible own buffer w)
    (chosen : ∀ h, plan.history = some h → h = buffer)
    (beginning : Observed plan buffer f old begun [] [] prepared)
    (existing : w.iterate.index < prepared.cells.size) (n : Nat) :
    Shown objective plan buffer f old begun w first prepared n := by
  induction n with
  | zero => exact .zero beginning
  | succ n ih => exact ih.succ observable visible chosen existing (valued_of_not_observed silent)

end Fista

end ProxGrad
