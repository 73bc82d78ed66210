import ProxGrad.Proofs.Lasting
import ProxGrad.Proofs.RelocatedImplementations
import ProxGrad.Proofs.Stores

/-!
# Allocated destinations

An operator that is given no destination makes an array like its argument, with the argument's
element type, and stores into that. The value that it stores is the one that it stores into a given
array, so what the two arrays show differs by the conversion to their types alone.
-/

set_option autoImplicit false

namespace ProxGrad.Session

open Relocation

variable {w : World} {h : Handle}

/-- Outcomes of one computation that stores into a given array, which held `v`, and into a new one,
which held `z`. It is refused before it stores anything, or stores one value into both. -/
def StoresAlike (b c : Cell) (v z : Value) (given new : Except Fault Cell × Memory Value) : Prop :=
  (∃ fault, given.1 = .error fault ∧ new.1 = .error fault ∧ given.2.content b = some v) ∨
  ∃ source, ∃ rest : Except Fault Unit,
    given.1 = (do (Calculus.store v source).2; rest; return b) ∧
    given.2.content b = some (Calculus.store v source).1 ∧
    new.1 = (do (Calculus.store z source).2; rest; return c) ∧
    new.2.content c = some (Calculus.store z source).1

/-- Outcomes that fail with one fault or succeed with one content of the two arrays. -/
def ShowAlike (b c : Cell) (given new : Except Fault Cell × Memory Value) : Prop :=
  (∃ fault, given.1 = .error fault ∧ new.1 = .error fault) ∨
    given.1 = .ok b ∧ new.1 = .ok c ∧ ∃ v, given.2.content b = some v ∧ new.2.content c = some v

theorem StoresAlike.showAlike {b c : Cell} {v z : Value}
    {given new : Except Fault Cell × Memory Value} (alike : StoresAlike b c v z given new)
    (kin : Value.SameKind v z) : ShowAlike b c given new := by
  obtain ⟨fault, left, right, -⟩ | ⟨source, rest, left, held, right, held'⟩ := alike
  · exact .inl ⟨fault, left, right⟩
  · obtain ⟨same, content⟩ := Value.store_of_sameKind kin source
    rw [← same] at right
    cases stored : (Calculus.store v source).2 with
    | error fault =>
      rw [stored] at left right
      exact .inl ⟨fault, left, right⟩
    | ok _ =>
      rw [stored] at left right
      cases rest with
      | error fault => exact .inl ⟨fault, left, right⟩
      | ok _ => exact .inr ⟨left, right, _, held, by rw [held', content stored]⟩

/-! ## One computation on two destinations -/

theorem outcome_returning {V : Type} (a : Action V Unit) (c : Cell) (m : Memory V) :
    (do a; return c : Action V Cell).outcome m =
      ((do (a.outcome m).1; return c), (a.outcome m).2) := by
  rw [Action.outcome_bind]
  cases a.outcome m with
  | mk result m' => cases result <;> rfl

theorem storesAlike_of_delivered {ρ : Relocation Value} {b : Cell} {v z : Value}
    {given new : Except Fault Unit × Memory Value}
    (delivered : Delivered ρ (fun v₁ v₂ => v₁ = v ∧ v₂ = z) {b} b given new) :
    StoresAlike b (ρ.image b) v z ((do given.1; return b), given.2)
      ((do new.1; return ρ.image b), new.2) := by
  cases delivered with
  | refused matched =>
    obtain ⟨_, _, held, -, rfl, rfl⟩ := matched.akin b rfl
    exact .inl ⟨_, rfl, rfl, held⟩
  | stored source copies rest matched =>
    obtain ⟨_, _, held, held', rfl, rfl⟩ := matched.akin b rfl
    obtain ⟨result, content⟩ := result_deliver held source copies rest
    obtain ⟨result', content'⟩ := result_deliver held' source copies rest
    refine .inr ⟨source, rest, ?_, content, ?_, content'⟩
    · rw [result, bind_assoc]
    · rw [result', bind_assoc]

/-- An action on a given destination, and on the next new one. -/
theorem storesAlike_of_delivers {b : Cell} {v z : Value} {m : Memory Value} {y : Ref Value}
    {bound : b.index < m.cells.size} (held : m.content b = some v)
    (foreign : y.Avoids (toEnd m b bound ∅).own) (act : Ref Value → Cell → Action Value Unit)
    (delivers : (toEnd m b bound ∅).Delivers (fun v₁ v₂ => v₁ = v ∧ v₂ = z) {b} b
      (act y b) (act ((toEnd m b bound ∅).ref y) ((toEnd m b bound ∅).image b))) :
    StoresAlike b m.next v z ((do act y b; return b).outcome m)
      ((do act y m.next; return m.next).outcome (m.push z)) := by
  have matched : (toEnd m b bound ∅).Matches (fun v₁ v₂ => v₁ = v ∧ v₂ = z) {b} m (m.push z) :=
    matches_push held (fun _ member => nomatch member) ⟨rfl, rfl⟩
  have alike := storesAlike_of_delivered (delivers m (m.push z) matched)
  rwa [← outcome_returning, ← outcome_returning, image_toEnd, ref_of_avoids foreign] at alike

theorem applyProximal_given (operator : Operator) (options : Option Handle) (y : Ref Value)
    (step : Option Value) (b : Cell) :
    applyProximal w operator h options y step (some b) =
      (do
        let _ ← applyProximal w operator h options y step (some b)
        return b) := by
  simp only [applyProximal, bind_assoc, pure_bind]
  refine bind_congr fun o => ?_
  cases resolve? w operator h o with
  | none => rfl
  | some i => simp only [bind_assoc, pure_bind]

theorem applyProximal_new (operator : Operator) {options : Option Handle} {y : Ref Value}
    (step : Option Value) {c : Cell} {m m' : Memory Value} {o : Handle}
    (chosen : chosenOptions w h options = .ok o)
    (allocated : (Action.freshLike y).outcome m = (.ok c, m')) :
    (applyProximal w operator h options y step none).outcome m =
      (applyProximal w operator h options y step (some c)).outcome m' := by
  unfold applyProximal
  rw [chosen, Action.outcome_bind_of_ok (Action.outcome_lift _ m),
    Action.outcome_bind_of_ok allocated]
  rfl

/-- What a new array like an argument is: an array of its type and shape. -/
theorem exists_outcome_freshLike {m : Memory Value} {y : Ref Value} {v : Value} {input : NDArray}
    (read : m.seen y = .ok v) (array : v.toArray none = .ok input)
    (allocates : m.AllocatesAlike) :
    ∃ z : NDArray, z.dtype = input.dtype ∧ z.shape = input.shape ∧
      (Action.freshLike y).outcome m = (.ok m.next, m.push (.array z)) := by
  have seen : (Action.readRef y).outcome m = (.ok v, m) := by rw [Action.outcome_readRef, read]
  have fresh : Calculus.fresh v = .ok (Value.array input.zerosLike) := by
    change (do return Value.array (← v.toArray none).zerosLike) = _
    rw [array]
    rfl
  obtain ⟨z, left, dtype, shape⟩ := allocates m.next input.zerosLike
  refine ⟨z, dtype, shape, ?_⟩
  rw [Action.outcome_freshLike seen fresh, left]

/-- Operators and gradients compute one value for a double-precision array that they are given and
for the array that they make: each stores it into its array. So the two arrays hold the same numbers
if the argument has double precision, and else what the store makes of the value in the argument's
element type. Any implementation may be registered that computes a value and stores it. -/
theorem allocated_destinations_take_the_same_value {y : Ref Value} {v : Value}
    {input buffer : NDArray} {b : Cell} (read : w.memory.seen y = .ok v)
    (array : v.toArray none = .ok input) (held : w.memory.content b = some (.array buffer))
    (double : buffer.dtype = .float64) (shaped : buffer.shape = input.shape)
    (apart : y.Avoids {b}) (spares : w.Spares h b) (allocates : w.memory.AllocatesAlike)
    (supplied : ∀ s ∈ w.supplied, s.StoresImages) :
    let m := w.memory
    ∃ z : NDArray, z.dtype = input.dtype ∧ z.shape = input.shape ∧
      (∀ operator options step,
        let given := (applyProximal w operator h options y step (some b)).outcome m
        let new := (applyProximal w operator h options y step none).outcome m
        StoresAlike b m.next (.array buffer) (.array z) given new ∧
          (input.dtype = .float64 → ShowAlike b m.next given new)) ∧
      let given := (do (smoothTerm w h).gradient y b; return b).outcome m
      let new := ((smoothTerm w h).newGradient y).outcome m
      StoresAlike b m.next (.array buffer) (.array z) given new ∧
        (input.dtype = .float64 → ShowAlike b m.next given new) := by
  intro m
  obtain ⟨z, dtype, shape, allocated⟩ := exists_outcome_freshLike read array allocates
  have kin (same : input.dtype = .float64) : Value.SameKind (.array buffer) (.array z) :=
    ⟨buffer, z, rfl, rfl, by rw [double, dtype, same], by rw [shaped, shape]⟩
  have bound := Memory.index_lt_of_content held
  have stays : w.StaysPut (toEnd w.memory b bound ∅) h :=
    spares.staysPut fun _ _ _ _ inside => inside
  have foreign : y.Avoids (toEnd w.memory b bound ∅).own := avoids_own_of_seen read apart
  refine ⟨z, dtype, shape, fun operator options step => ?_, ?_⟩
  · intro given new
    have alike : StoresAlike b m.next (.array buffer) (.array z) given new := by
      cases chosen : chosenOptions w h options with
      | error fault =>
        have refused (out : Option Cell) :
            (applyProximal w operator h options y step out).outcome m = (.error fault, m) := by
          unfold applyProximal
          rw [chosen]
          exact Action.outcome_bind_of_error (Action.outcome_lift _ m)
        exact .inl ⟨fault, congrArg Prod.fst (refused _), congrArg Prod.fst (refused _),
          by rw [show given = _ from refused (some b)]; exact held⟩
      | ok o =>
        have stored : StoresAlike b m.next (.array buffer) (.array z) _ _ :=
          storesAlike_of_delivers held foreign
            (fun y c => do let _ ← applyProximal w operator h options y step (some c))
            (applyProximal_delivers operator options step b supplied stays apart)
        simp only [bind_assoc, pure_bind] at stored
        rwa [← applyProximal_given, ← applyProximal_given, ← applyProximal_new operator step chosen
          allocated] at stored
    exact ⟨alike, fun same => alike.showAlike (kin same)⟩
  · intro given new
    have alike : StoresAlike b m.next (.array buffer) (.array z) given new := by
      have stored : StoresAlike b m.next (.array buffer) (.array z) _ _ :=
        storesAlike_of_delivers held foreign (smoothTerm w h).gradient
          ((smoothTerm_relocates stays).gradient apart apart)
      have made : new = (do (smoothTerm w h).gradient y m.next; return m.next).outcome
          (m.push (.array z)) := Action.outcome_bind_of_ok allocated
      rwa [← made] at stored
    exact ⟨alike, fun same => alike.showAlike (kin same)⟩

/-! ## Whole numbers -/

def half : Binary :=
  Binary.ofDecimal .double false 5 (-1)

def oneReal (x : Binary) : NDArray :=
  ⟨.float64, .ofList [.real x]⟩

/-- An implementation that doubles a point and adds one half. -/
def doubling : Affine :=
  { name := "doubling", scale := .int 2, offset := .real half, returned := .destination,
    fails := false }

/-- A world with a weighted sum of magnitudes and a squared distance, an argument, and a
double-precision array. The projection onto a sum of magnitudes doubles. -/
def besideBuffer (argument : NDArray) : World where
  memory := { cells := #[.array argument, .real half, .array (oneReal half),
    .array (oneReal .zero)] }
  objects := #[{ cls := .exactArgmin }, { cls := .l1Norm, fields := [("weight", .data ⟨1⟩)] },
    { cls := .squaredDistance, fields := [("y", .data ⟨2⟩)] }]
  registry := initialRegistry.register ⟨.projSet, .l1Norm, .exactArgmin⟩ (.supplied doubling.name)
  supplied := [doubling.supplied]

theorem spares_besideBuffer (argument : NDArray) :
    (besideBuffer argument).Spares (.object 1) ⟨3⟩ := by
  have parts {h : Handle} (part : (besideBuffer argument).Part (.object 1) h) :
      h = .object 1 ∨ h = .data ⟨1⟩ := by
    induction part with
    | self => exact .inl rfl
    | field _ found ih =>
      obtain ⟨i, instance?, member⟩ := World.exists_field_of_field? found
      rcases ih with rfl | rfl <;> cases instance?
      exact .inr (Prod.mk.inj (List.mem_singleton.mp member)).2
    | counted _ found body ih =>
      rcases ih with rfl | rfl
      · cases found
        cases body
      · cases found
  constructor
  · intro d part
    rcases parts part with same | same <;> cases same
    exact ⟨by decide, (by decide : 1 < 4)⟩
  · intro h i a part found body
    rcases parts part with rfl | rfl <;> cases found
    cases body

theorem storesImages_besideBuffer (argument : NDArray) :
    ∀ s ∈ (besideBuffer argument).supplied, s.StoresImages := by
  intro s member
  rw [List.mem_singleton.mp member]
  exact doubling.storesImages_supplied

theorem double_arguments_show_alike :
    let w := besideBuffer (oneReal (Binary.ofInt .double 3))
    let apply (operator : Operator) (step : Option Value) (out : Option Cell) :=
      (applyProximal w operator (.object 1) none (.cell ⟨0⟩) step out).outcome w.memory
    let alike (operator : Operator) (step : Option Value) :=
      ShowAlike ⟨3⟩ ⟨4⟩ (apply operator step (some ⟨3⟩)) (apply operator step none)
    alike .prox (some (.int 1)) ∧ alike .projSet none := by
  intro w apply alike
  obtain ⟨z, -, -, operators, -⟩ := allocated_destinations_take_the_same_value (w := w)
    (y := .cell ⟨0⟩) (b := ⟨3⟩) rfl rfl rfl rfl rfl (by simp [Ref.Avoids])
    (spares_besideBuffer _) (fun c a => ⟨a, rfl, rfl, rfl⟩) (storesImages_besideBuffer _)
  exact ⟨(operators .prox none _).2 rfl, (operators .projSet none _).2 rfl⟩

/-- The numbers that an array of real or whole numbers shows. -/
def numbersAt (m : Memory Value) (c : Cell) : List Binary :=
  match m.content c with
  | some (.array a) => a.data.entries.filterMap fun
    | .real r => some r
    | .int i => some (Binary.ofInt .double i)
    | _ => none
  | _ => []

/-- The proximal point of three is two and a half, which the new array of whole numbers cuts. So is
the gradient there. -/
theorem whole_numbers_are_cut :
    let w := besideBuffer ⟨.int true 64, .ofList [.int 3]⟩
    let prox (out : Option Cell) :=
      (applyProximal w .prox (.object 1) none (.cell ⟨0⟩) (some (.int 1)) out).outcome w.memory
    let gradient := (do (smoothTerm w (.object 2)).gradient (.cell ⟨0⟩) ⟨3⟩).outcome w.memory
    let newGradient := ((smoothTerm w (.object 2)).newGradient (.cell ⟨0⟩)).outcome w.memory
    let two := [Binary.ofInt .double 2]
    let twoAndHalf := [Binary.ofDecimal .double false 25 (-1)]
    (prox (some ⟨3⟩)).1 = .ok ⟨3⟩ ∧ numbersAt (prox (some ⟨3⟩)).2 ⟨3⟩ = twoAndHalf ∧
      (prox none).1 = .ok ⟨4⟩ ∧ numbersAt (prox none).2 ⟨4⟩ = two ∧
      numbersAt gradient.2 ⟨3⟩ = twoAndHalf ∧
      newGradient.1 = .ok ⟨4⟩ ∧ numbersAt newGradient.2 ⟨4⟩ = two ∧ two ≠ twoAndHalf := by
  refine ⟨?_, ?_, ?_, ?_, ?_, ?_, ?_, ?_⟩
  all_goals decide +kernel

end ProxGrad.Session
