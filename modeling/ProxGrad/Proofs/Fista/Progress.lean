import ProxGrad.Proofs.Fista.Calls
import ProxGrad.Proofs.Fista.History
import ProxGrad.Proofs.Lasting

/-!
# Progress of runs on rounded values

A run on a floating array stops early only where one of its terms fails, or gives a value that the
history does not take. The solver's own steps always go through: they are operations on arrays of
one element type and shape, and on numbers of its real type.
-/

set_option autoImplicit false

namespace ProxGrad

namespace Fista

variable {objective : Objective Value} {plan : Plan Value} {w : Workspace Value} {d : DType}
  {shape : List Nat} {count n : Nat} {s : State Value} {m m' : Memory Value}

/-! ## What a run has at hand -/

/-- The arrays of a run are like its point, its constants are numbers of the real type of the point,
and a history has room for all iterations. -/
structure Equipped (plan : Plan Value) (d : DType) (shape : List Nat) (count : Nat)
    (w : Workspace Value) (m : Memory Value) : Prop where
  floating : d.isInexact = true
  iterate : m.Holds w.iterate d shape
  proximal : m.Holds w.proximal d shape
  gradient : m.Holds w.gradient d shape
  lipschitz : w.lipschitz.IsArray d.realPart []
  start : w.start.IsArray d.realPart []
  history : ∀ h, plan.history = some h → ∃ e room, m.Holds h e [room] ∧ count ≤ room

theorem Equipped.keep (equipped : Equipped plan d shape count w m) (kept : m.KeepsArrays m') :
    Equipped plan d shape count w m' where
  floating := equipped.floating
  iterate := kept _ _ _ equipped.iterate
  proximal := kept _ _ _ equipped.proximal
  gradient := kept _ _ _ equipped.gradient
  lipschitz := equipped.lipschitz
  start := equipped.start
  history := fun h chosen => by
    obtain ⟨e, room, holds, bound⟩ := equipped.history h chosen
    exact ⟨e, room, kept _ _ _ holds, bound⟩

/-- What one iteration hands to the next is of the type and the shape of the point. -/
structure Carried (d : DType) (shape : List Nat) (s : State Value) : Prop where
  momentum : s.momentum.IsArray d.realPart []
  previous : ∃ a, s.previous = .array a ∧ a.dtype = d ∧ a.shape = shape

/-! ## Steps of the solver -/

theorem Equipped.outcome_forward (equipped : Equipped plan d shape count w m) :
    ∃ y step, (forward w).outcome m = (.ok (y, step), m) := by
  obtain ⟨x, held, rfl, rfl⟩ := equipped.iterate
  obtain ⟨g, held', dtype, same⟩ := equipped.gradient
  have slope : (Value.array g).IsArray x.dtype x.shape := ⟨g, rfl, dtype, same⟩
  obtain ⟨scaled, divided, kind⟩ :=
    slope.arithmetic_number .div equipped.lipschitz equipped.floating
  obtain ⟨y, moved, -⟩ := (Value.isArray_array x).arithmetic_same .sub kind equipped.floating
  obtain ⟨p, real⟩ := DType.exists_realPart equipped.floating
  obtain ⟨step, length, -⟩ := (real ▸ equipped.lipschitz).int_arithmetic (i := 1) .div (by decide)
  have point : (do Calculus.sub (Value.array x) (← Calculus.div (.array g) w.lipschitz)) =
      Except.ok y := by
    change (Value.arithmetic .div (.array g) w.lipschitz >>= Value.arithmetic .sub (.array x)) = _
    rw [divided]
    exact moved
  have reciprocal : Calculus.div (Calculus.ofNat 1) w.lipschitz = Except.ok step := length
  refine ⟨y, step, ?_⟩
  rw [forward, Action.outcome_bind_of_ok (Action.outcome_read held),
    Action.outcome_bind_of_ok (Action.outcome_read held'), point, reciprocal]
  rfl

theorem Carried.exists_moved (carried : Carried d shape s) (floating : d.isInexact = true)
    {next z : Value} (growing : next.IsArray d.realPart []) (point : z.IsArray d shape) (n : Nat) :
    ∃ p, moved n s next z = .ok p ∧ p.IsArray d shape := by
  rw [moved]
  split
  · exact ⟨z, rfl, point⟩
  · obtain ⟨previous, last, rfl, rfl⟩ := carried.previous
    obtain ⟨p, real⟩ := DType.exists_realPart floating
    obtain ⟨less, first, kind⟩ := (real ▸ carried.momentum).arithmetic_int (i := 1) .sub (by decide)
    obtain ⟨ratio, second, kind⟩ := kind.arithmetic_same .div (real ▸ growing) rfl
    obtain ⟨change, third, along⟩ := point.arithmetic_same .sub
      (last ▸ Value.isArray_array previous) floating
    obtain ⟨scaled, fourth, along⟩ := (real ▸ kind).number_arithmetic .mul along floating
    obtain ⟨beyond, fifth, result⟩ := point.arithmetic_same .add along floating
    refine ⟨beyond, ?_, result⟩
    change (do
      Value.arithmetic .add z (← Value.arithmetic .mul
        (← Value.arithmetic .div (← Value.arithmetic .sub s.momentum (.int 1)) next)
        (← Value.arithmetic .sub z s.previous))) = _
    simp only [first, second, third, fourth, fifth, bind, Except.bind]

/-- Moving the iterate and updating the momentum goes through. -/
theorem Equipped.outcome_accelerate (equipped : Equipped plan d shape count w m)
    (carried : Carried d shape s) (n : Nat) :
    ∃ s' m', (accelerate plan w n s).outcome m = (.ok s', m') ∧ Carried d shape s' := by
  obtain ⟨z, held, rfl, rfl⟩ := equipped.proximal
  obtain ⟨x, held', dtype, same⟩ := equipped.iterate
  obtain ⟨a, last, dtype', same'⟩ := carried.previous
  obtain ⟨p, real⟩ := DType.exists_realPart equipped.floating
  obtain ⟨next, grown, kind⟩ := (real ▸ carried.momentum).momentum
  obtain ⟨point, found, array⟩ := carried.exists_moved equipped.floating (real ▸ kind)
    (Value.isArray_array z) n
  have stored : (Calculus.store (Value.array x) point).2 = .ok () :=
    Value.IsArray.store (dtype ▸ same ▸ array) (dtype ▸ equipped.floating)
  have kept : (Calculus.store (Value.array a) (.array z)).2 = .ok () :=
    Value.IsArray.store (dtype' ▸ same' ▸ Value.isArray_array z) (dtype' ▸ equipped.floating)
  obtain ⟨b, content, dtype'', same''⟩ := Value.exists_store_array a (.array z)
  have stores := Action.outcome_store held' point
  rw [stored] at stores
  refine ⟨s.advance plan w next (Calculus.store s.previous (.array z)).1,
    m.put w.iterate (Calculus.store (Value.array x) point).1, ?_, ?_⟩
  · rw [accelerate, grown, Action.outcome_bind_of_ok (Action.outcome_lift _ _),
      Action.outcome_bind_of_ok (Action.outcome_read held), found,
      Action.outcome_bind_of_ok (Action.outcome_lift _ _), Action.outcome_bind_of_ok stores]
    dsimp only
    rw [last, kept, Action.outcome_bind_of_ok (Action.outcome_lift _ _), Action.outcome_pure]
  · constructor
    · change (if plan.resetAfter.any _ then w.start else next).IsArray z.dtype.realPart []
      split
      · exact equipped.start
      · exact real ▸ kind
    · rw [last]
      exact ⟨b, content, dtype''.trans dtype', same''.trans same'⟩

theorem accelerate_lasting (plan : Plan Value) (w : Workspace Value) (n : Nat) (s : State Value) :
    (accelerate plan w n s).Lasting :=
  .bind (.of_still (Action.still_lift _)) fun _ => .bind (.of_still (Action.still_read _)) fun _ =>
    .bind (.of_still (Action.still_lift _)) fun _ => .bind (Action.lasting_store _ _) fun _ =>
      .bind (.of_still (Action.still_lift _)) fun _ => .of_still (Action.still_pure _)

theorem askSmooth_lasting (lasting : objective.Lasting) (plan : Plan Value) (w : Workspace Value) :
    (askSmooth objective plan w).Lasting := by
  unfold askSmooth
  split
  · exact .bind (lasting.valueAndGradient _ _) fun _ => .of_still (Action.still_pure _)
  · exact .bind (lasting.gradient _ _) fun _ => .of_still (Action.still_pure _)

/-! ## Histories -/

/-- Whether a value is put into entry `n` of a history, converted to its element type. -/
def Written (h : Cell) (n : Nat) (v : Value) (m m' : Memory Value) : Prop :=
  ∃ buffer e, m.content h = some (.array buffer) ∧ n < buffer.size ∧
    Value.entryAs buffer.dtype v = .ok e ∧
    m'.content h = some (.array ⟨buffer.dtype, buffer.data.set n e⟩)

theorem Equipped.exists_buffer (equipped : Equipped plan d shape count w m) (bound : n < count)
    {h : Cell} (chosen : plan.history = some h) :
    ∃ buffer, m.content h = some (.array buffer) ∧ n < buffer.size := by
  obtain ⟨e, room, ⟨buffer, held, rfl, side⟩, enough⟩ := equipped.history h chosen
  refine ⟨buffer, held, ?_⟩
  rw [NDArray.size_eq_of_shape side]
  exact Nat.lt_of_lt_of_le bound enough

theorem outcome_remember_of_array {h : Cell} (chosen : plan.history = some h) {buffer : NDArray}
    (held : m.content h = some (.array buffer)) (bound : n < buffer.size) (v : Value) :
    (remember plan (n + 1) v).outcome m =
      match Value.entryAs buffer.dtype v with
      | .ok e => (.ok (), m.put h (.array ⟨buffer.dtype, buffer.data.set n e⟩))
      | .error fault => (.error fault, m) := by
  rw [outcome_remember_of_history chosen held, setEntry_array bound]
  cases Value.entryAs buffer.dtype v <;> rfl

/-- An answer is noted, in its entry if there is a history, or the history does not take its
value. -/
theorem Equipped.noteAnswer_or_refused (equipped : Equipped plan d shape count w m)
    (bound : n < count) (answer : Option Value) :
    (∃ m', (noteAnswer plan n answer).outcome m = (.ok (), m') ∧ m.KeepsArrays m' ∧
      ∀ h v, plan.history = some h → answer = some v → Written h n v m m') ∨
    ∃ v h buffer fault, answer = some v ∧ plan.history = some h ∧
      m.content h = some (.array buffer) ∧ Value.entryAs buffer.dtype v = .error fault ∧
      (noteAnswer plan n answer).outcome m = (.error fault, m) := by
  cases answer with
  | none =>
    refine .inl ⟨m, rfl, .refl m, ?_⟩
    rintro h v - ⟨⟩
  | some v =>
    cases kept : plan.history with
    | none =>
      have remembered := outcome_remember_of_no_history kept (n + 1) v m
      obtain ⟨reports, announced, -⟩ := outcome_announce plan (n + 1) v m
      refine .inl ⟨_, (Action.outcome_bind_of_ok remembered).trans announced, .refl m, ?_⟩
      rintro h _ ⟨⟩
    | some h =>
      obtain ⟨buffer, held, inside⟩ := equipped.exists_buffer bound kept
      have remembered := outcome_remember_of_array kept held inside v
      cases converted : Value.entryAs buffer.dtype v with
      | error fault =>
        rw [converted] at remembered
        exact .inr ⟨v, h, buffer, fault, rfl, rfl, held, converted,
          Action.outcome_bind_of_error remembered⟩
      | ok entry =>
        rw [converted] at remembered
        obtain ⟨reports, announced, -⟩ := outcome_announce plan (n + 1) v
          (m.put h (.array ⟨buffer.dtype, buffer.data.set n entry⟩))
        refine .inl ⟨_, (Action.outcome_bind_of_ok remembered).trans announced, ?_, ?_⟩
        · refine Memory.keepsArrays_put fun a same => ?_
          cases held.symm.trans same
          exact ⟨_, rfl, rfl, rfl⟩
        · rintro _ _ ⟨⟩ ⟨⟩
          exact ⟨buffer, entry, held, inside, converted, Memory.content_put_self held _⟩

/-- Whether iteration `n + 1` puts the value of the smooth term into its entry of a history. -/
def Writes (objective : Objective Value) (plan : Plan Value) (w : Workspace Value) (h : Cell)
    (n : Nat) (m : Memory Value) : Prop :=
  ∃ v m₁ m₂, (askSmooth objective plan w).outcome m = (.ok (some v), m₁) ∧
    (noteAnswer plan n (some v)).outcome m₁ = (.ok (), m₂) ∧ Written h n v m₁ m₂

/-! ## Iterations -/

/-- What stops a run in its iteration `n + 1`: a term that fails, or a value that the history does
not take. -/
inductive Stopped (objective : Objective Value) (plan : Plan Value) (w : Workspace Value) (n : Nat)
    (m : Memory Value) : Fault → Memory Value → Prop
  | evaluation {fault m'} (failed : (askSmooth objective plan w).outcome m = (.error fault, m')) :
      Stopped objective plan w n m fault m'
  | value {v m' h buffer fault}
      (asked : (askSmooth objective plan w).outcome m = (.ok (some v), m'))
      (chosen : plan.history = some h) (held : m'.content h = some (.array buffer))
      (refused : Value.entryAs buffer.dtype v = .error fault) :
      Stopped objective plan w n m fault m'
  | prox {m₁ y step fault m'}
      (evaluated : (evaluate objective plan w (n + 1)).outcome m = (.ok (), m₁))
      (failed :
        (objective.proximal.prox (.const y) step w.proximal).outcome m₁ = (.error fault, m')) :
      Stopped objective plan w n m fault m'

/-- An evaluation goes through, and its value into the history, or something stops the run. -/
theorem Equipped.evaluate_or_stopped (lasting : objective.Lasting)
    (equipped : Equipped plan d shape count w m) (bound : n < count) :
    (∃ m', (evaluate objective plan w (n + 1)).outcome m = (.ok (), m') ∧ m.KeepsArrays m' ∧
      ∀ h, plan.history = some h → Writes objective plan w h n m) ∨
    ∃ fault m', (evaluate objective plan w (n + 1)).outcome m = (.error fault, m') ∧
      Stopped objective plan w n m fault m' := by
  rw [evaluate_eq]
  cases asked : (askSmooth objective plan w).outcome m with
  | mk answered m₁ =>
  have kept₁ := (askSmooth_lasting lasting plan w).keepsArrays asked
  cases answered with
  | error fault => exact .inr ⟨fault, m₁, Action.outcome_bind_of_error asked, .evaluation asked⟩
  | ok answer =>
    rcases (equipped.keep kept₁).noteAnswer_or_refused bound answer with
      ⟨m₂, noted, kept₂, written⟩ | ⟨v, h, buffer, fault, rfl, chosen, held, refused, noted⟩
    · refine .inl ⟨m₂, (Action.outcome_bind_of_ok asked).trans noted, kept₁.trans kept₂, ?_⟩
      intro h chosen
      have asks : plan.observed = true := by simp [Plan.observed, chosen]
      obtain ⟨v, rfl⟩ := exists_answer_of_observed asks asked
      exact ⟨v, m₁, m₂, asked, noted, written h v chosen rfl⟩
    · exact .inr ⟨fault, m₁, (Action.outcome_bind_of_ok asked).trans noted,
        .value asked chosen held refused⟩

/-- The move after an evaluation goes through, or the proximal term fails. -/
theorem Equipped.moveOn_or_stopped (lasting : objective.Lasting)
    (equipped : Equipped plan d shape count w m') (carried : Carried d shape s)
    (evaluated : (evaluate objective plan w (n + 1)).outcome m = (.ok (), m')) :
    (∃ s' m'', (moveOn objective plan w (n + 1) s).outcome m' = (.ok s', m'') ∧
      m'.KeepsArrays m'' ∧ Carried d shape s') ∨
    ∃ fault m'', (moveOn objective plan w (n + 1) s).outcome m' = (.error fault, m'') ∧
      Stopped objective plan w n m fault m'' := by
  obtain ⟨y, step, ahead⟩ := equipped.outcome_forward
  rw [moveOn, proximalStep_eq]
  cases mapped : (objective.proximal.prox (.const y) step w.proximal).outcome m' with
  | mk result m₁ =>
  have stepped : (forward w >>= fun (y, step) =>
      objective.proximal.prox (.const y) step w.proximal).outcome m' = (result, m₁) :=
    (Action.outcome_bind_of_ok ahead).trans mapped
  have kept₁ := (lasting.prox y step w.proximal).keepsArrays mapped
  cases result with
  | error fault =>
    exact .inr ⟨fault, m₁, Action.outcome_bind_of_error stepped, .prox evaluated mapped⟩
  | ok _ =>
    rw [Action.outcome_bind_of_ok stepped]
    split
    · obtain ⟨s', m₂, moved, carried'⟩ :=
        (equipped.keep kept₁).outcome_accelerate carried (n + 1)
      have kept₂ := (accelerate_lasting plan w (n + 1) s).keepsArrays moved
      exact .inl ⟨s', m₂, moved, kept₁.trans kept₂, carried'⟩
    · exact .inl ⟨s, m₁, rfl, kept₁, carried⟩

/-- An iteration goes through, or something stops it that is not the solver's. -/
theorem Equipped.iteration_or_stopped (lasting : objective.Lasting)
    (equipped : Equipped plan d shape count w m) (carried : Carried d shape s)
    (bound : n < count) :
    (∃ s' m', (iteration objective plan w (n + 1) s).outcome m = (.ok s', m') ∧
      m.KeepsArrays m' ∧ Carried d shape s' ∧
      ∀ h, plan.history = some h → Writes objective plan w h n m) ∨
    ∃ fault m', (iteration objective plan w (n + 1) s).outcome m = (.error fault, m') ∧
      Stopped objective plan w n m fault m' := by
  rw [iteration_eq]
  rcases equipped.evaluate_or_stopped lasting bound with
    ⟨m₁, evaluated, kept₁, writes⟩ | ⟨fault, m₁, failed, stopped⟩
  · rw [Action.outcome_bind_of_ok evaluated]
    rcases (equipped.keep kept₁).moveOn_or_stopped lasting carried evaluated with
      ⟨s', m₂, moved, kept₂, carried'⟩ | stopped
    · exact .inl ⟨s', m₂, moved, kept₁.trans kept₂, carried', writes⟩
    · exact .inr stopped
  · exact .inr ⟨fault, m₁, Action.outcome_bind_of_error failed, stopped⟩

/-- A run goes through all its iterations, or something stops it in one of them. -/
theorem Equipped.afterIterations_or_stopped {first : State Value} {prepared : Memory Value}
    (lasting : objective.Lasting) (equipped : Equipped plan d shape count w prepared)
    (carried : Carried d shape first) (bound : n ≤ count) :
    (∃ s m, (afterIterations objective plan w first n).outcome prepared = (.ok s, m) ∧
      prepared.KeepsArrays m ∧ Carried d shape s ∧
      ∀ h, plan.history = some h → ∀ k < n, ∃ s m,
        (afterIterations objective plan w first k).outcome prepared = (.ok s, m) ∧
        Writes objective plan w h k m) ∨
    ∃ k s m fault m', k < n ∧
      (afterIterations objective plan w first k).outcome prepared = (.ok s, m) ∧
      (iteration objective plan w (k + 1) s).outcome m = (.error fault, m') ∧
      Stopped objective plan w k m fault m' := by
  induction n with
  | zero =>
    refine .inl ⟨first, prepared, rfl, .refl _, carried, ?_⟩
    rintro h - k ⟨⟩
  | succ n ih =>
    rcases ih (Nat.le_of_succ_le bound) with
      ⟨s, m, reached, kept, carried, writes⟩ | ⟨k, s, m, fault, m', earlier, stopped⟩
    case inr => exact .inr ⟨k, s, m, fault, m', Nat.lt_succ_of_lt earlier, stopped⟩
    rcases (equipped.keep kept).iteration_or_stopped lasting carried bound with
      ⟨s', m', ran, kept', carried', writes'⟩ | ⟨fault, m', failed, stopped⟩
    · refine .inl ⟨s', m', ?_, kept.trans kept', carried', ?_⟩
      · exact (outcome_afterIterations_succ reached).trans ran
      · intro h chosen k before
        rcases Nat.lt_succ_iff_lt_or_eq.mp before with earlier | rfl
        · exact writes h chosen k earlier
        · exact ⟨s, m, reached, writes' h chosen⟩
    · exact .inr ⟨n, s, m, fault, m', Nat.lt_succ_self n, reached, failed, stopped⟩

/-! ## Set-up -/

variable {x : Cell} {begun : Memory Value}

theorem outcome_freshLike_of_holds (holds : m.Holds x d shape) (alike : m.AllocatesAlike) :
    ∃ v, (Action.freshLike (.cell x)).outcome m = (.ok m.next, m.push v) ∧
      (m.push v).Holds m.next d shape := by
  obtain ⟨a, held, rfl, rfl⟩ := holds
  obtain ⟨b, left, kind⟩ := alike m.next a.zerosLike
  have fresh : Calculus.fresh (Value.array a) = .ok (.array a.zerosLike) := rfl
  have allocated := Action.outcome_freshLike (Action.outcome_readRef_cell held) fresh
  rw [left] at allocated
  exact ⟨.array b, allocated, b, Memory.content_push_next m _, kind⟩

theorem outcome_proximalArray (plan : Plan Value) (holds : m.Holds x d shape)
    (alike : m.AllocatesAlike) :
    ∃ c m', (proximalArray plan x).outcome m = (.ok c, m') ∧ m.KeepsArrays m' ∧
      m'.Holds c d shape ∧ m'.AllocatesAlike := by
  cases mode : plan.accelerated with
  | false => exact ⟨x, m, by rw [proximalArray, mode]; rfl, .refl m, holds, alike⟩
  | true =>
    obtain ⟨v, allocated, new⟩ := outcome_freshLike_of_holds holds alike
    exact ⟨m.next, m.push v, by rw [proximalArray, mode]; exact allocated,
      Memory.keepsArrays_push m v, new, alike⟩

/-- A run on a floating array is set up, if its parameters are there and its constant has a value in
the real type of the array. -/
theorem exists_setUp {a : NDArray} (held : begun.content x = some (.array a))
    (floating : a.dtype.isInexact = true) (alike : begun.AllocatesAlike)
    (iterations : plan.iterations = some count) {lipschitz : Value}
    (bound : plan.lipschitz = some lipschitz)
    (scaled : ∃ r, Calculus.realScalar (.array a) lipschitz = .ok r ∧
      r.IsArray a.dtype.realPart [])
    (history : ∀ h, plan.history = some h → ∃ e room, begun.Holds h e [room] ∧ count ≤ room) :
    ∃ w first prepared, (setUp plan x).outcome begun = (.ok (count, w, first), prepared) ∧
      Equipped plan a.dtype a.shape count w prepared ∧ Carried a.dtype a.shape first := by
  have holds : begun.Holds x a.dtype a.shape := ⟨a, held, rfl, rfl⟩
  have accepted : accept plan (.array a) = .ok (count, lipschitz) := by
    refine accept_eq_ok_iff.mpr ⟨iterations, bound, ?_⟩
    change (if (!a.dtype.isInexact) = true then throw _ else pure ()) = _
    rw [floating]
    rfl
  obtain ⟨r, rounded, constant⟩ := scaled
  obtain ⟨one, unit, start⟩ : ∃ one : Value,
      Calculus.realScalar (Value.array a) (Calculus.ofNat 1) = .ok one ∧
        one.IsArray a.dtype.realPart [] :=
    Value.exists_realScalar_int floating (i := 1) (by decide)
  obtain ⟨proximal, m₁, chosen, kept₁, image, alike₁⟩ := outcome_proximalArray plan holds alike
  obtain ⟨v, allocated, slope⟩ := outcome_freshLike_of_holds (kept₁ _ _ _ holds) alike₁
  have kept₂ := Memory.keepsArrays_push m₁ v
  have prepares : (prepare plan x lipschitz).outcome begun =
      (.ok ({ iterate := x, proximal, gradient := m₁.next, lipschitz := r, start := one },
        { momentum := one, previous := .array a, accelerated := 0 }), m₁.push v) := by
    rw [prepare, Action.outcome_bind_of_ok (Action.outcome_read held),
      Action.outcome_bind_of_ok chosen, Action.outcome_bind_of_ok allocated, rounded, unit]
    rfl
  refine ⟨_, _, _, outcome_setUp held accepted prepares, ?_, start, a, rfl, rfl, rfl⟩
  exact {
    floating
    iterate := kept₂ _ _ _ (kept₁ _ _ _ holds)
    proximal := kept₂ _ _ _ image
    gradient := slope
    lipschitz := constant
    start
    history := fun h recorded => by
      obtain ⟨e, room, there, enough⟩ := history h recorded
      exact ⟨e, room, kept₂ _ _ _ (kept₁ _ _ _ there), enough⟩ }

end Fista

end ProxGrad
