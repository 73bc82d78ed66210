import ProxGrad.Proofs.Fista.Relocation
import ProxGrad.Session.Operators

/-!
# Implementations and relocation

An implementation does the same wherever its destination stands, as long as it uses the arrays that
it is handed and those that it makes. All implementations that the package registers are like that,
and of one that a caller supplies it is a condition.
-/

set_option autoImplicit false

namespace ProxGrad.Session

open Relocation

variable {w : World} {ρ : Relocation Value} {kin : Value → Value → Prop} {stale : Set Cell}
  {m₁ m₂ : Memory Value} {function options : Handle}

/-! ## Requests -/

def Arguments.relocated (ρ : Relocation Value) (a : Arguments) : Arguments :=
  { a with point := ρ.ref a.point, out := ρ.image a.out }

def ImageRequest.relocated (ρ : Relocation Value) (r : ImageRequest) : ImageRequest :=
  { r with point := ρ.ref r.point, out := ρ.image r.out }

def MinimizationRequest.relocated (ρ : Relocation Value) (r : MinimizationRequest) :
    MinimizationRequest :=
  { r with x := ρ.image r.x }

/-- No field of the function is an array that is moved or new. -/
def ImageRequest.StaysPut (r : ImageRequest) (ρ : Relocation Value) : Prop :=
  ∀ name y, r.field? name = some y → y.Avoids ρ.own

/-- The terms work wherever their destinations stand, and the history is no array that is moved, new
or guarded. -/
structure MinimizationRequest.StaysPut (r : MinimizationRequest) (ρ : Relocation Value) :
    Prop where
  objective : ∀ objective, r.objective = .ok objective → objective.Relocates ρ
  history : ∀ o c, r.parameters? = some o → o.history = some c → c ∉ ρ.own ∧ c ∉ ρ.guarded

/-! ## Conditions on implementations -/

/-- Results that correspond: nothing, or a cell and its image with the same content. -/
inductive Result.Corresponds (ρ : Relocation Value) (m₁ m₂ : Memory Value) : Result → Result → Prop
  | nothing : Corresponds ρ m₁ m₂ .nothing .nothing
  | cell {c : Cell} : m₂.content (ρ.image c) = m₁.content c →
    Corresponds ρ m₁ m₂ (.cell c) (.cell (ρ.image c))

/-- Outcomes of minimizing in the moved cell and in its image. -/
def InPlace (ρ : Relocation Value) (kin : Value → Value → Prop) :
    Except Fault Result × Memory Value → Except Fault Result × Memory Value → Prop :=
  Coupled (fun r r' n₁ n₂ => r.Corresponds ρ n₁ n₂ r' ∧ ρ.Alike kin n₁ n₂) (ρ.Alike kin)

/-- Whether minimizing goes the same in the moved cell and in its image, from matching memories. -/
def MinimizesAlike (ρ : Relocation Value) (kin : Value → Value → Prop)
    (run : MinimizationRequest → Action Value Result) : Prop :=
  ∀ r m₁ m₂, r.StaysPut ρ → r.x = ρ.moved → ρ.Matches kin ∅ m₁ m₂ →
    InPlace ρ kin ((run r).outcome m₁) ((run (r.relocated ρ)).outcome m₂)

/-- An implementation that computes one value from what it is handed and stores that into its
destination. -/
def Supplied.StoresImages (s : Supplied) : Prop :=
  ∀ {ρ : Relocation Value} {kin : Value → Value → Prop} {stale : Set Cell} {r : ImageRequest},
    r.StaysPut ρ → r.point.Avoids stale →
      ρ.Delivers kin stale r.out (do let _ ← s.storeImage r)
        (do let _ ← s.storeImage (r.relocated ρ))

/-- An implementation that does the same wherever the arrays stand which it writes to. It may store
into them piece by piece, make arrays of its own and evaluate the terms of a function, as long as it
reads nothing that was left in an array before. -/
structure Supplied.Relocates (s : Supplied) : Prop where
  storeImage {ρ : Relocation Value} {kin : Value → Value → Prop} {stale : Set Cell}
    {r : ImageRequest} : Absorbs kin → ρ.MakesKin kin → r.StaysPut ρ → r.out ∈ ρ.own →
      r.point.Avoids stale → ρ.Settles kin stale (stale \ {r.out}) (do let _ ← s.storeImage r)
        (do let _ ← s.storeImage (r.relocated ρ))
  minimizeInPlace {ρ : Relocation Value} {kin : Value → Value → Prop} :
    Absorbs kin → ρ.MakesKin kin → MinimizesAlike ρ kin s.minimizeInPlace

/-! ## The accelerated method -/

theorem coupled_runFista (absorbs : Absorbs kin) (makes : ρ.MakesKin kin)
    {r : MinimizationRequest} (stays : r.StaysPut ρ) (moved : r.x = ρ.moved)
    (fresh : ρ.moved ∉ stale) (matched : ρ.Matches kin stale m₁ m₂) :
    Coupled (fun c d n₁ n₂ => c = ρ.moved ∧ d = ρ.image ρ.moved ∧ ρ.Alike kin n₁ n₂)
      (ρ.Alike kin) ((runFista r).outcome m₁) ((runFista (r.relocated ρ)).outcome m₂) := by
  unfold runFista
  dsimp only [MinimizationRequest.relocated]
  rw [moved]
  cases chosen : r.parameters? with
  | none => exact .error (matched.alike fresh)
  | some o =>
    refine ((Steady.read fresh).settles m₁ m₂ fresh matched).bind ?_
    rintro v _ n₁ n₂ ⟨rfl, matched⟩
    refine ((Steady.lift _).settles n₁ n₂ fresh matched).bind ?_
    rintro _ _ n₁ n₂ ⟨-, matched⟩
    refine ((Steady.lift _).settles n₁ n₂ fresh matched).bind ?_
    rintro accelerated _ n₁ n₂ ⟨rfl, matched⟩
    cases found : r.objective with
    | error fault => exact .error (matched.alike fresh)
    | ok objective =>
      refine ((Steady.lift o.verbose.truth?).settles n₁ n₂ fresh matched).bind ?_
      rintro verbose _ n₁ n₂ ⟨rfl, matched⟩
      exact Fista.coupled_minimize makes absorbs (stays.objective objective found)
        (fun c => stays.history o c chosen) (matched.alike fresh)

theorem minimizesAlike_runFista (absorbs : Absorbs kin) (makes : ρ.MakesKin kin) :
    MinimizesAlike ρ kin fun r => do return .cell (← runFista r) := by
  intro r m₁ m₂ stays moved matched
  refine (coupled_runFista absorbs makes stays moved (Set.notMem_empty _) matched).bind ?_
  rintro c _ n₁ n₂ ⟨rfl, rfl, stale, fresh, matched⟩
  exact .ok ⟨.cell (matched.content _ fresh), matched.alike fresh⟩

/-! ## Affine maps -/

namespace Affine

variable (i : Affine)

theorem storesImages_supplied : i.supplied.StoresImages := by
  intro ρ kin stale r _ fresh
  dsimp only [supplied, ImageRequest.relocated]
  cases fails : i.fails with
  | true =>
    simp only [run, fails, if_true, bind_assoc]
    exact .bind (.record _) fun _ _ _ matched => .refused matched
  | false =>
    simp only [run, fails, Bool.false_eq_true, if_false, bind_assoc]
    refine .bind (.record _) fun _ => ?_
    refine .bind (.readRef fresh) fun y => ?_
    refine .bind (.lift _) fun y => ?_
    refine .bind (.lift _) fun z => ?_
    cases i.returned with
    | destination => exact .store_lift z (.ok ())
    | nothing => exact .store_lift z (.ok ())
    | copy =>
      simp only [bind_assoc, pure_bind]
      exact .store_copy z ()

theorem minimizesAlike_supplied (absorbs : Absorbs kin) :
    MinimizesAlike ρ kin i.supplied.minimizeInPlace := by
  intro r m₁ m₂ _ moved matched
  have fresh : ρ.moved ∉ (∅ : Set Cell) := id
  have started := (Steady.record
    (.implementation i.name r.functionType r.optionsType none)).settles m₁ m₂ fresh matched
  dsimp only [supplied, MinimizationRequest.relocated, run]
  rw [moved]
  refine started.bind ?_
  rintro _ _ n₁ n₂ ⟨-, matched⟩
  cases i.fails with
  | true => exact .error (matched.alike fresh)
  | false =>
    refine ((Steady.read fresh).settles n₁ n₂ fresh matched).bind ?_
    rintro y _ n₁ n₂ ⟨rfl, matched⟩
    refine ((Steady.lift _).settles n₁ n₂ fresh matched).bind ?_
    rintro y _ n₁ n₂ ⟨rfl, matched⟩
    refine ((Steady.lift _).settles n₁ n₂ fresh matched).bind ?_
    rintro z _ n₁ n₂ ⟨rfl, matched⟩
    have stored := (coupled_store absorbs ρ.moved_own z matched).mono (fun _ _ _ _ same => same)
      fun _ _ matched => matched.alike fresh
    refine stored.bind fun _ _ n₁ n₂ matched => ?_
    rw [Set.empty_sdiff] at matched
    have same := matched.content ρ.moved fresh
    cases i.returned with
    | destination => exact .ok ⟨.cell same, matched.alike fresh⟩
    | nothing => exact .ok ⟨.nothing, matched.alike fresh⟩
    | copy =>
      refine ((Steady.read fresh).settles n₁ n₂ fresh matched).bind ?_
      rintro v _ n₁ n₂ ⟨rfl, matched⟩
      have pushed := matched.push v
      have copied :
          (Result.cell n₁.next).Corresponds ρ (n₁.push v) (n₂.push v) (.cell n₂.next) := by
        rw [← matched.image_next]
        exact .cell (pushed.content _ id)
      exact .ok ⟨copied, pushed.alike fresh⟩

theorem relocates_supplied : i.supplied.Relocates where
  storeImage absorbs _ stays member fresh :=
    (i.storesImages_supplied stays fresh).settles absorbs member
  minimizeInPlace absorbs _ := i.minimizesAlike_supplied absorbs

end Affine

/-! ## Implementations of the proximal operators -/

theorem runFailing_delivers {a : Arguments} (stays : w.StaysPut ρ a.function)
    (fresh : a.point.Avoids stale) :
    ρ.Delivers kin stale a.out (runFailing w a) (runFailing w (a.relocated ρ)) := by
  refine .bind stays.steady_readField fun limit => ?_
  refine .bind (stays.steady_isSpent limit) fun spent => ?_
  cases spent with
  | true => exact .throw _
  | false =>
    refine .bind stays.steady_countUp fun _ => ?_
    refine .bind (.readRef fresh) fun y => ?_
    exact .bind (.lift _) fun y => .store_only y

theorem staysPut_request {a : Arguments} (stays : w.StaysPut ρ a.function) :
    (a.request w).StaysPut ρ := by
  intro name y found
  obtain ⟨part, field, rfl⟩ := Option.map_eq_some_iff.mp found
  exact (stays.part (.field .self field)).refOf_avoids

theorem runProximal_delivers (i : Implementation) {a : Arguments}
    (supplied : ∀ name s, i = .supplied name → s ∈ w.supplied → s.StoresImages)
    (stays : w.StaysPut ρ a.function) (fresh : a.point.Avoids stale) :
    ρ.Delivers kin stale a.out (runProximal w i a) (runProximal w i (a.relocated ρ)) := by
  cases i with
  | fista => exact .throw _
  | proxL1 =>
    refine .bind (.record _) fun _ => ?_
    exact stays.delivers_fieldRef fun weight foreign => Terms.proxL1_delivers foreign fresh _
  | proxRidge =>
    refine .bind (.record _) fun _ => ?_
    exact stays.delivers_fieldRef fun weight foreign => Terms.proxRidge_delivers foreign fresh _
  | proxNonNegative => exact .bind (.record _) fun _ => Terms.proxNonNegative_delivers fresh
  | proxFailing => exact runFailing_delivers stays fresh
  | projBox =>
    refine stays.delivers_fieldRef fun lower below => ?_
    exact stays.delivers_fieldRef fun upper above => Terms.projectBox_delivers below above fresh
  | supplied name =>
    unfold runProximal
    dsimp only
    cases found : w.supplied.find? fun i => i.name == name with
    | none => exact .throw _
    | some s =>
      have delivers : s.StoresImages := supplied name s rfl (List.mem_of_find?_eq_some found)
      exact delivers (r := a.request w) (staysPut_request stays) fresh

/-- An implementation that the caller supplies may take more than one store. -/
theorem runProximal_settles (i : Implementation) {a : Arguments} (absorbs : Absorbs kin)
    (makes : ρ.MakesKin kin) (supplied : ∀ s ∈ w.supplied, s.Relocates)
    (stays : w.StaysPut ρ a.function) (member : a.out ∈ ρ.own) (fresh : a.point.Avoids stale) :
    ρ.Settles kin stale (stale \ {a.out}) (runProximal w i a)
      (runProximal w i (a.relocated ρ)) := by
  have registered (known : ∀ name, i ≠ .supplied name) :
      ρ.Settles kin stale (stale \ {a.out}) (runProximal w i a)
        (runProximal w i (a.relocated ρ)) :=
    (runProximal_delivers i (fun name _ same => absurd same (known name)) stays fresh).settles
      absorbs member
  cases i with
  | supplied name =>
    unfold runProximal
    dsimp only
    cases found : w.supplied.find? fun i => i.name == name with
    | none => exact .throw _
    | some s =>
      have relocates := supplied s (List.mem_of_find?_eq_some found)
      exact relocates.storeImage (r := a.request w) absorbs makes (staysPut_request stays) member
        fresh
  | _ => exact registered nofun

/-- What an operator does with a given destination. -/
theorem applyProximal_some (operator : Operator) (options : Option Handle) (y : Ref Value)
    (step : Option Value) (out : Cell) :
    (do let _ ← applyProximal w operator function options y step (some out)) = (do
      let options ← Action.lift (chosenOptions w function options)
      match resolve? w operator function options with
      | none => throw .notImplemented
      | some i => runProximal w i { function, options, point := y, step, out }) := by
  simp only [applyProximal, bind_assoc, pure_bind]
  refine bind_congr fun options => ?_
  cases resolve? w operator function options with
  | none => rfl
  | some i => simp only [bind_assoc, pure_bind, bind_pure_unit]

/-- The outcome of an operator on a given destination, wherever that stands. -/
theorem applyProximal_delivers (operator : Operator) (options : Option Handle) {point : Ref Value}
    (step : Option Value) (out : Cell) (supplied : ∀ s ∈ w.supplied, s.StoresImages)
    (stays : w.StaysPut ρ function) (fresh : point.Avoids stale) :
    ρ.Delivers kin stale out
      (do let _ ← applyProximal w operator function options point step (some out))
      (do let _ ← applyProximal w operator function options (ρ.ref point) step
            (some (ρ.image out))) := by
  rw [applyProximal_some, applyProximal_some]
  refine .bind (.lift _) fun options => ?_
  cases resolve? w operator function options with
  | none => exact .throw _
  | some i =>
    let a : Arguments := { function, options, point, step, out }
    exact runProximal_delivers (a := a) i (fun _ s _ => supplied s) stays fresh

theorem proximalTerm_relocates {h : Handle} (supplied : ∀ s ∈ w.supplied, s.Relocates)
    (stays : w.StaysPut ρ h) : (proximalTerm w h).Relocates ρ where
  prox {kin stale y out} absorbs makes step member fresh := by
    dsimp only [proximalTerm]
    rw [applyProximal_some, applyProximal_some]
    refine .bind (Steady.lift _).settles fun options => ?_
    cases resolve? w .prox h options with
    | none => exact .throw _
    | some i =>
      let a : Arguments := { function := h, options, point := y, step := some step, out }
      exact runProximal_settles (a := a) i absorbs makes supplied stays member fresh
  value absorbs makes fresh := termValueWithin_settles absorbs makes fresh _ stays

/-! ## Minimizing -/

/-- The terms of a composite. -/
def World.IsTerm (w : World) (function term : Handle) : Prop :=
  w.field? function "diff" = some term ∨ w.field? function "prox" = some term

theorem relocates_objectiveOf {objective : Objective Value}
    (supplied : ∀ s ∈ w.supplied, s.Relocates)
    (stays : ∀ t, w.IsTerm function t → w.StaysPut ρ t)
    (found : objectiveOf w function = .ok objective) : objective.Relocates ρ := by
  unfold objectiveOf at found
  split at found
  case h_1 diff prox first second =>
    cases found
    exact ⟨smoothTerm_relocates (stays diff (.inl first)),
      proximalTerm_relocates supplied (stays prox (.inr second))⟩
  case h_2 => cases found

theorem inPlace_minimizeInPlace (given : Option Handle) (absorbs : Absorbs kin)
    (makes : ρ.MakesKin kin) (supplied : ∀ s ∈ w.supplied, s.Relocates)
    (stays : ∀ t, w.IsTerm function t → w.StaysPut ρ t)
    (history : ∀ options o c, chosenOptions w function given = .ok options →
      w.fistaOptions? options = some o → o.history = some c → c ∉ ρ.own ∧ c ∉ ρ.guarded)
    (matched : ρ.Matches kin ∅ m₁ m₂) :
    InPlace ρ kin ((minimizeInPlace w function given ρ.moved).outcome m₁)
      ((minimizeInPlace w function given (ρ.image ρ.moved)).outcome m₂) := by
  have refused := matched.alike (Set.notMem_empty _)
  unfold minimizeInPlace
  cases completed : chosenOptions w function given with
  | error fault => exact .error refused
  | ok options =>
    rw [Action.outcome_bind_of_ok (Action.outcome_lift _ m₁),
      Action.outcome_bind_of_ok (Action.outcome_lift _ m₂)]
    have put : (minimizationRequest w function options ρ.moved).StaysPut ρ :=
      ⟨fun _ => relocates_objectiveOf supplied stays, fun o c => history options o c completed⟩
    dsimp only
    cases resolve? w .argmin function options with
    | none => exact .error refused
    | some i =>
      cases i with
      | fista => exact minimizesAlike_runFista absorbs makes _ m₁ m₂ put rfl matched
      | supplied name =>
        dsimp only
        cases found : w.supplied.find? fun i => i.name == name with
        | none => exact .error refused
        | some s =>
          exact (supplied s (List.mem_of_find?_eq_some found)).minimizeInPlace absorbs makes _ m₁ m₂
            put rfl matched
      | _ => exact .error refused

end ProxGrad.Session
