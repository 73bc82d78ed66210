import ProxGrad.Proofs.Composites.Combination
import ProxGrad.Proofs.Dispatch.Allocation
import ProxGrad.Proofs.Dispatch.Fallback
import ProxGrad.Proofs.Likeness
import ProxGrad.Proofs.Options.Rebinding

/-!
# Minimizing on a copy

Minimizing from a start that is to be kept works on a copy of it: in the destination, or in a new
array if none is given. As long as the destination is no array of a term and not the history, the
two cannot be told apart, and neither can minimizing a fresh copy in place.
-/

set_option autoImplicit false

namespace ProxGrad

open Relocation

namespace Value

theorem absorbs_sameKind : Absorbs SameKind := by
  intro v₁ v₂ source kin
  obtain ⟨same, content⟩ := store_of_sameKind kin source
  exact ⟨same, content, sameKind_store kin source⟩

end Value

theorem Memory.AllocatesAlike.makesKin {m : Memory Value} (alike : m.AllocatesAlike) {c : Cell}
    (bound : c.index < m.cells.size) (guarded : Set Cell) :
    (toEnd m c bound guarded).MakesKin Value.SameKind := by
  intro v zeros d e fresh
  obtain ⟨a, -, made⟩ := exists_of_bind_eq_ok (a := v.toArray none) fresh
  cases made
  obtain ⟨b, left, dtype, shape⟩ := alike d a.zerosLike
  obtain ⟨b', left', dtype', shape'⟩ := alike e a.zerosLike
  exact ⟨b, b', left, left', dtype.trans dtype'.symm, shape.trans shape'.symm⟩

theorem Memory.Accepts.index_lt {m : Memory Value} {c : Cell} {a : NDArray}
    (accepted : m.Accepts (.cell c) a) : c.index < m.cells.size := by
  obtain ⟨v, -, seen, -, -⟩ := accepted
  exact Memory.index_lt_of_content (Action.outcome_read_eq_ok seen).1

namespace Session

variable {w : World} {kin : Value → Value → Prop} {function options diff prox old : Handle}
  {cls : ClassId}

/-! ## Given and new destinations -/

/-- A function with options, a start, and a destination of the start's type and shape, where the
destination is no array of a term and not the history, and nothing is written into the start. -/
structure World.Separate (w : World) (function : Handle) (given : Option Handle)
    (start : Ref Value) (out : Cell) (a : NDArray) : Prop where
  accepted : w.memory.Accepts start a
  floating : a.dtype.isInexact = true
  rounded : a.Rounded
  destination : ∃ old, w.memory.content out = some (.array old) ∧ old.dtype = a.dtype ∧
    old.shape = a.shape
  apart : start.Avoids {out}
  terms : ∀ t, w.IsTerm function t → w.Spares t out
  counts : ∀ t h c, w.IsTerm function t → w.Part t h → w.field? h "calls" = some (.data c) →
    start.Avoids {c}
  history : ∀ options o c, chosenOptions w function given = .ok options →
    w.fistaOptions? options = some o → o.history = some c →
    c.index < w.memory.cells.size ∧ c ≠ out ∧ start.Avoids {c}

/-- Results that are nothing, or cells with one content: the given array and the new one, or others
that were made alike. -/
inductive Result.ShownAlike (out new : Cell) (m₁ m₂ : Memory Value) : Result → Result → Prop
  | nothing : ShownAlike out new m₁ m₂ .nothing .nothing
  | cell {c d : Cell} : (c = out ↔ d = new) → m₁.content c = m₂.content d →
    ShownAlike out new m₁ m₂ (.cell c) (.cell d)

/-- Outcomes of one run from a memory, on a given array and on a new one. They fail with one fault
or give the same. In the end both arrays hold the same, as does every other array that there was,
the start is as it was, and the same was called and reported. -/
structure RunsAlike (m : Memory Value) (start : Ref Value) (out : Cell)
    (given new : Except Fault Result × Memory Value) : Prop where
  result : SameResult (Result.ShownAlike out m.next given.2 new.2) given.1 new.1
  arrays : given.2.content out = new.2.content m.next
  others : ∀ c, c ≠ out → c.index < m.cells.size → given.2.content c = new.2.content c
  start : ∀ c, start = .cell c →
    given.2.content c = m.content c ∧ new.2.content c = m.content c
  calls : given.2.calls = new.2.calls
  reports : given.2.reports = new.2.reports

theorem runsAlike_of_inPlace {m : Memory Value} {start : Ref Value} {out : Cell}
    {bound : out.index < m.cells.size} {given new : Except Fault Result × Memory Value}
    (inPlace : InPlace (toEnd m out bound {c | start = .cell c}) kin given new) :
    RunsAlike m start out given new := by
  generalize relocation : toEnd m out bound {c | start = .cell c} = ρ at inPlace
  have moved : ρ.moved = out := by rw [← relocation]; rfl
  have place : ρ.image out = m.next := by
    rw [← relocation, image_toEnd]
  have outside {c : Cell} (apart : c ≠ out) (below : c.index < m.cells.size) : c ∉ ρ.own := by
    rw [← relocation]
    exact not_or.mpr ⟨apart, Nat.not_le.mpr below⟩
  have ends {n₁ n₂ : Memory Value} (alike : ρ.Alike kin n₁ n₂)
      {r₁ r₂ : Except Fault Result}
      (result : SameResult (Result.ShownAlike out m.next n₁ n₂) r₁ r₂) :
      RunsAlike m start out (r₁, n₁) (r₂, n₂) := by
    obtain ⟨stale, fresh, matched⟩ := alike
    rw [moved] at fresh
    refine ⟨result, ?_, fun c apart below => ?_, fun c same => ?_, matched.calls.symm,
      matched.reports.symm⟩
    · rw [← place]
      exact (matched.content out fresh).symm
    · exact (matched.foreign c (outside apart below)).symm
    · have guarded : c ∈ ρ.guarded := by
        rw [← relocation]
        exact same
      obtain ⟨foreign, kept⟩ := matched.kept c guarded
      have origin : ρ.origin = m := by rw [← relocation]; rfl
      rw [origin] at kept
      exact ⟨kept, (matched.foreign c foreign).trans kept⟩
  cases inPlace with
  | error alike => exact ends alike (.error _)
  | ok related =>
    obtain ⟨corresponds, alike⟩ := related
    refine ends alike (.ok ?_)
    cases corresponds with
    | nothing => exact .nothing
    | cell same =>
      refine .cell ⟨fun given => by rw [given, place], fun new => ?_⟩ same.symm
      exact ρ.image_injective (new.trans place.symm)

theorem store_destination {m : Memory Value} {out : Cell} {a old : NDArray}
    (held : m.content out = some (.array old)) (floating : a.dtype.isInexact = true)
    (rounded : a.Rounded) (dtype : old.dtype = a.dtype) (shape : old.shape = a.shape) :
    (Action.store out (.array a)).outcome m = (.ok (), m.put out (.array a)) := by
  have stored := NDArray.store_of_rounded floating rounded dtype shape
  have result : Calculus.store (Value.array old) (.array a) = (.array a, .ok ()) := by
    change (Value.array (old.store a).1, (old.store a).2) = _
    rw [stored]
  rw [Action.outcome_store held, result]

/-- What the destination held does not matter: the start is stored over all of it. -/
theorem outcome_minimize_of_destination {given : Option Handle} {start : Ref Value} {out : Cell}
    {a old : NDArray} {m : Memory Value} (accepted : m.Accepts start a)
    (floating : a.dtype.isInexact = true) (rounded : a.Rounded)
    (held : m.content out = some (.array old)) (dtype : old.dtype = a.dtype)
    (shape : old.shape = a.shape) :
    (minimize w function given start (some out)).outcome m =
      (minimizeInPlace w function given out).outcome (m.put out (.array a)) := by
  have stored := store_destination held floating rounded dtype shape
  rw [outcome_minimize_of_accepts accepted]
  exact Action.outcome_bind_of_ok stored

theorem outcome_minimize_of_none {given : Option Handle} {start : Ref Value} {a : NDArray}
    {m : Memory Value} (accepted : m.Accepts start a) :
    (minimize w function given start none).outcome m =
      (minimizeInPlace w function given m.next).outcome (m.push (.array a)) := by
  rw [outcome_minimize_of_accepts accepted]
  exact Action.outcome_bind_of_ok (Action.outcome_allocate _ m)

theorem runsAlike_minimize {given : Option Handle} {start : Ref Value} {out : Cell} {a : NDArray}
    (separate : w.Separate function given start out a) (allocates : w.memory.AllocatesAlike)
    (supplied : ∀ s ∈ w.supplied, s.Relocates) :
    RunsAlike w.memory start out ((minimize w function given start (some out)).outcome w.memory)
      ((minimize w function given start none).outcome w.memory) := by
  obtain ⟨old, held, dtype, shape⟩ := separate.destination
  have bound := Memory.index_lt_of_content held
  have guarded : ∀ c ∈ {c | start = .cell c}, c ≠ out ∧ c.index < w.memory.cells.size := by
    rintro c rfl
    exact ⟨separate.apart, separate.accepted.index_lt⟩
  have related : Value.SameKind (.array old) (.array a) := ⟨old, a, rfl, rfl, dtype, shape⟩
  -- The destination holds the start, and so does the new array in its place.
  have matched := (matches_push held guarded related).put (fun inside => (guarded out inside).1 rfl)
    (.array a)
  rw [Set.sdiff_self, image_toEnd, Memory.put_push_next] at matched
  have writes {c : Cell} (apart : start.Avoids {c}) : c ∉ {c | start = .cell c} := by
    rintro rfl
    exact apart rfl
  have stays (t : Handle) (term : w.IsTerm function t) :
      w.StaysPut (toEnd w.memory out bound {c | start = .cell c}) t :=
    (separate.terms t term).staysPut fun h c part calls =>
      writes (separate.counts t h c term part calls)
  have ran := inPlace_minimizeInPlace given Value.absorbs_sameKind
    (allocates.makesKin bound _) supplied stays
    (fun options o c completed chosen noted => by
      obtain ⟨below, other, apart⟩ := separate.history options o c completed chosen noted
      exact ⟨not_or.mpr ⟨other, Nat.not_le.mpr below⟩, writes apart⟩) matched
  have alike := runsAlike_of_inPlace ran
  rwa [show (toEnd w.memory out bound {c | start = .cell c}).moved = out from rfl, image_toEnd,
    ← outcome_minimize_of_destination separate.accepted separate.floating separate.rounded held
    dtype shape, ← outcome_minimize_of_none separate.accepted] at alike

/-! ## Options -/

/-- A composite of a class that has the constructor of composites, with the fields that this
gives. -/
structure World.IsComposite (w : World) (h : Handle) (cls : ClassId) (diff prox options : Handle) :
    Prop where
  held : w.instance? h = some { compositeOf diff prox options with cls }
  subclass : w.classes.isSubclass cls .composite = true
  constructed : w.classes.owner? cls .construct = some .composite
  concrete : w.classes.isAbstract cls = false

/-- Whether an outcome is a new composite, on which minimizing goes as on the given one with these
options. -/
def Binds (w : World) (h options : Handle) (r : Except Fault Handle × World) : Prop :=
  ∃ h' i, r = (.ok h', w.pushed i) ∧ ∀ start out,
    minimize (w.pushed i) h' none start out = minimize (w.pushed i) h (some options) start out

section

variable {h : Handle} (held : w.instance? h = some { compositeOf diff prox options with cls })
include held

theorem field?_of_composite (name : String) :
    w.field? h name = (compositeOf diff prox options).fields.lookup name := by
  rw [World.field?, held]
  rfl

theorem objectiveOf_composite :
    objectiveOf w h = .ok { smooth := smoothTerm w diff, proximal := proximalTerm w prox } := by
  rw [objectiveOf, field?_of_composite held, field?_of_composite held]
  rfl

end

/-- Minimizing depends on the class of a function, on its terms and on the options alone. -/
theorem minimize_congr {h h' : Handle} {given given' : Option Handle}
    (chosen : chosenOptions w h given = chosenOptions w h' given')
    (ancestors : w.ancestors h = w.ancestors h') (named : w.typeName h = w.typeName h')
    (terms : objectiveOf w h = objectiveOf w h') (start : Ref Value) (out : Option Cell) :
    minimize w h given start out = minimize w h' given' start out := by
  have inPlace (x : Cell) : minimizeInPlace w h given x = minimizeInPlace w h' given' x := by
    simp only [minimizeInPlace, resolve?, minimizationRequest, chosen, ancestors, named, terms]
  exact bind_congr inPlace

/-- Of two composites of one class and the same terms, one that carries some options is minimized as
the other is with these options passed. -/
theorem minimize_carried {h h' : Handle}
    (held : w.instance? h = some { compositeOf diff prox old with cls })
    (held' : w.instance? h' = some { compositeOf diff prox options with cls }) (start : Ref Value)
    (out : Option Cell) :
    minimize w h' none start out = minimize w h (some options) start out := by
  refine minimize_congr ?_ ?_ ?_ ?_ start out
  · have carried : w.field? h' "options" = some options := field?_of_composite held' "options"
    simp only [chosenOptions, World.optionsOf, carried]
  · rw [World.ancestors, World.ancestors, held, held']
  · rw [World.typeName, World.typeName, held, held']
  · rw [objectiveOf_composite held, objectiveOf_composite held']

theorem binds_of_isComposite (composite : w.IsComposite function cls diff prox old)
    (options : Handle) : Binds w function options
      (.ok (.object w.objects.size), w.pushed { compositeOf diff prox options with cls }) :=
  ⟨_, _, rfl, minimize_carried ((World.Extends.pushed w _).kept _ _ composite.held)
    (instance?_pushed w _)⟩

theorem outcome_instantiate_composite
    (constructed : w.classes.owner? cls .construct = some .composite)
    (concrete : w.classes.isAbstract cls = false) (diff prox options : Handle) :
    (instantiate cls [("diff", diff), ("prox", prox), ("options", options)]).outcome w =
      (.ok (.object w.objects.size), w.pushed { compositeOf diff prox options with cls }) := by
  have fields : (fieldsOf .composite
      [("diff", diff), ("prox", prox), ("options", options)]).outcome w =
      (.ok [("diff", diff), ("prox", prox), ("options", options)], w) := rfl
  have other : ClassId.composite ≠ .fistaArgmin := by decide
  unfold instantiate
  rw [Act.outcome_bind, Act.outcome_world]
  simp only [constructed, concrete, Bool.false_eq_true, if_false, Option.getD_some, if_neg other]
  rw [Act.outcome_bind, fields]
  rfl

theorem outcome_replaceOptions (built : w.classes.Built)
    (composite : w.IsComposite function cls diff prox old) (options : Handle) :
    (replaceOptions function options).outcome w =
      (.ok (.object w.objects.size), w.pushed { compositeOf diff prox options with cls }) := by
  have found := built.isSome_owner? (m := .withOptions) composite.subclass (by decide) (by decide)
  obtain ⟨owner, found⟩ := Option.isSome_iff_exists.mp found
  have owned : w.owner? function .withOptions = some owner := by
    rw [World.owner?, composite.held]
    exact found
  have shown : w.field? function "with_options" = none :=
    field?_of_composite composite.held "with_options"
  have method : w.method function .withOptions = .ok owner := by
    simp only [World.method, Method.name?, Option.bind_some, shown, owned, Option.isSome_none]
    rfl
  have first : w.field? function "diff" = some diff := field?_of_composite composite.held "diff"
  have second : w.field? function "prox" = some prox := field?_of_composite composite.held "prox"
  unfold replaceOptions
  rw [Act.outcome_bind, Act.outcome_world]
  simp only [Act.outcome_bind, Act.outcome_lift, method, first, second, composite.held]
  exact outcome_instantiate_composite composite.constructed composite.concrete diff prox options

/-! ## Copies and options -/

/-- Minimizing from a start works on a copy. With a destination it goes as without one and as
minimizing a fresh copy in place: it fails alike, or gives the same contents, history and calls,
whatever the destination held, and the start is as it was either way. Any implementation may be
registered that does the same wherever its arrays stand. To pass options is to bind them first, by
another composite of the same terms, and the proximal steps are taken with the options of the
proximal term. -/
theorem minimize_runs_on_a_copy {given : Option Handle} {start : Ref Value} {out : Cell}
    {a : NDArray} (separate : w.Separate function given start out a)
    (allocates : w.memory.AllocatesAlike) (supplied : ∀ s ∈ w.supplied, s.Relocates)
    (built : w.classes.Built) :
    let m := w.memory
    let run (out : Option Cell) := (minimize w function given start out).outcome
    RunsAlike m start out (run (some out) m) (run none m) ∧
    run none m =
      (do minimizeInPlace w function given (← Action.allocate (Value.array a))).outcome m ∧
    (∀ b : NDArray, b.dtype = a.dtype → b.shape = a.shape →
      run (some out) (m.put out (.array b)) = run (some out) m) ∧
    ∀ cls diff prox old, w.IsComposite function cls diff prox old →
      (∀ o, Binds w function o ((replaceOptions function o).outcome w)) ∧
      (cls = .composite → w.Fits diff prox →
        ∀ o, Binds w function o ((combineTerms diff prox o).outcome w)) ∧
      ∀ own, w.optionsOf prox = .ok own →
        ∃ objective, objectiveOf w function = .ok objective ∧
          ∀ y step c, objective.proximal.prox y step c =
            (do let _ ← applyProximal w .prox prox (some own) y (some step) (some c)) := by
  intro m run
  refine ⟨runsAlike_minimize separate allocates supplied,
    outcome_minimize_of_accepts separate.accepted _ _, fun b dtype shape => ?_,
    fun cls diff prox old composite => ⟨fun o => ?_, ?_, ?_⟩⟩
  · obtain ⟨old, held, dtype', shape'⟩ := separate.destination
    have accepted : (m.put out (.array b)).Accepts start a := by
      obtain ⟨v, converted, seen, finite, taken⟩ := separate.accepted
      refine ⟨v, converted, ?_, finite, taken⟩
      rw [Action.outcome_readRef] at seen ⊢
      rw [Memory.seen_put separate.apart, (Prod.mk.inj seen).1]
    have held' := Memory.content_put_self held (.array b)
    change (minimize w function given start (some out)).outcome _ =
      (minimize w function given start (some out)).outcome _
    rw [outcome_minimize_of_destination accepted separate.floating separate.rounded held' dtype
        shape, Memory.put_put,
      outcome_minimize_of_destination separate.accepted separate.floating separate.rounded held
        dtype' shape']
  · rw [outcome_replaceOptions built composite]
    exact binds_of_isComposite composite o
  · rintro rfl fits o
    have made : (combineTerms diff prox o).outcome w = _ := composes_combineTerms fits o
    rw [made]
    exact binds_of_isComposite composite o
  · intro own carried
    refine ⟨_, objectiveOf_composite composite.held, fun y step c => ?_⟩
    simp only [proximalTerm, applyProximal, chosenOptions, carried]

/-! ## A recorded run -/

/-- Options of one step of length one half, with a history. -/
def recordedStep (history : Cell) : FistaOptions :=
  { defaultFista with
    lipschitz := .real (Binary.ofInt .double 2), iterations := .int 1, history := some history }

/-- A start, a history, the data of a squared distance, a destination, and an object that stands for
no limit. One composite takes one step, and another one counts the calls to its smooth term in the
start. The proximal term itself is minimized by an implementation of the caller. -/
def recording : World where
  memory := { cells := #[.array (singleton 10), .array (singleton 3), .array (singleton 0),
    .array (singleton 7), .absent] }
  objects := #[{ cls := .exactArgmin },
    { cls := .fistaArgmin, body := .fista (recordedStep ⟨1⟩) },
    { cls := .squaredDistance, fields := [("y", .data ⟨2⟩)] }, { cls := .nonNegative },
    compositeOf (.object 2) (.object 3) (.object 1),
    { cls := .counting, body := .counting (.object 2),
      fields := [("fail_at", .data ⟨4⟩), ("calls", .data ⟨0⟩)] },
    compositeOf (.object 5) (.object 3) (.object 1)]
  registry := initialRegistry.register ⟨.argmin, .nonNegative, .exactArgmin⟩
    (.supplied doubling.name)
  supplied := [doubling.supplied]

theorem relocates_recording : ∀ s ∈ recording.supplied, s.Relocates := by
  intro s member
  rw [List.mem_singleton.mp member]
  exact doubling.relocates_supplied

section

variable {f t h : Handle} (known : f = .object 3 ∨ f = .object 4)
include known

theorem isTerm_recording (term : recording.IsTerm f t) : t = .object 2 ∨ t = .object 3 := by
  rcases known with rfl | rfl <;> rcases term with found | found <;> cases found
  · exact .inl rfl
  · exact .inr rfl

theorem part_recording (term : recording.IsTerm f t) (part : recording.Part t h) :
    h = .object 2 ∨ h = .object 3 ∨ h = .data ⟨2⟩ := by
  induction part with
  | self => exact (isTerm_recording known term).imp_right .inl
  | field _ found ih =>
    obtain ⟨i, instance?, member⟩ := World.exists_field_of_field? found
    rcases ih with rfl | rfl | rfl <;> cases instance?
    · exact .inr (.inr (Prod.mk.inj (List.mem_singleton.mp member)).2)
    · cases member
  | counted _ found body ih =>
    rcases ih with rfl | rfl | rfl <;> cases found <;> cases body

theorem separate_recording : recording.Separate f none (.cell ⟨0⟩) ⟨3⟩ (singleton 10) where
  accepted := Memory.accepts_of_floating rfl rfl (by decide +kernel)
  floating := rfl
  rounded := by
    intro x member
    rw [List.mem_singleton.mp member]
    have kept : (Binary.ofInt .double 10).convert .double = Binary.ofInt .double 10 := by
      decide +kernel
    exact congrArg Scalar.real kept
  destination := ⟨singleton 7, rfl, rfl, rfl⟩
  apart := by simp [Ref.Avoids]
  terms := by
    intro t term
    constructor
    · intro d part
      rcases part_recording known term part with same | same | same <;> cases same
      exact ⟨by decide, (by decide : 2 < 5)⟩
    · intro h i a part found body
      rcases part_recording known term part with rfl | rfl | rfl <;> cases found <;> cases body
  counts := by
    intro t h c term part calls
    rcases part_recording known term part with rfl | rfl | rfl <;> cases calls
  history := by
    intro options o c completed chosen noted
    rcases known with rfl | rfl <;> cases completed
    · cases chosen
    · cases chosen
      cases noted
      exact ⟨by decide, by decide, by simp [Ref.Avoids]⟩

end

theorem recorded_runs_are_alike :
    let m := recording.memory
    let run (function : Handle) (out : Option Cell) :=
      (minimize recording function none (.cell ⟨0⟩) out).outcome m
    let alike (function : Handle) :=
      RunsAlike m (.cell ⟨0⟩) ⟨3⟩ (run function (some ⟨3⟩)) (run function none)
    alike (.object 3) ∧ alike (.object 4) ∧
      Binds recording (.object 4) exactOptions
        ((replaceOptions (.object 4) exactOptions).outcome recording) := by
  have first := minimize_runs_on_a_copy (separate_recording (.inl rfl))
    (fun c a => ⟨a, rfl, rfl, rfl⟩) relocates_recording .initial
  obtain ⟨alike, -, -, composite⟩ := minimize_runs_on_a_copy (separate_recording (.inr rfl))
    (fun c a => ⟨a, rfl, rfl, rfl⟩) relocates_recording .initial
  have binds := composite .composite (.object 2) (.object 3) (.object 1)
    ⟨rfl, by decide, by decide, by decide⟩
  exact ⟨first.1, alike, binds.1 exactOptions⟩

/-- A destination that is the history holds the value of the objective by the time it is read. A
start that is the history, or in which a term counts its calls, is overwritten. -/
theorem shared_arrays_are_overwritten :
    let m := recording.memory
    let run (function : Handle) (start : Cell) (out : Option Cell) :=
      (minimize recording function none (.cell start) out).outcome m
    let real (i : Int) := [Binary.ofInt .double i]
    numbersAt (run (.object 4) ⟨0⟩ none).2 ⟨5⟩ = real 5 ∧
      numbersAt (run (.object 4) ⟨0⟩ (some ⟨1⟩)).2 ⟨1⟩ = real 45 ∧ real 5 ≠ real 45 ∧
      numbersAt m ⟨1⟩ = real 3 ∧
      numbersAt (run (.object 4) ⟨1⟩ none).2 ⟨1⟩ = [Binary.ofDecimal .double false 45 (-1)] ∧
      numbersAt m ⟨0⟩ = real 10 ∧ numbersAt (run (.object 6) ⟨0⟩ none).2 ⟨0⟩ = real 11 := by
  refine ⟨?_, ?_, ?_, ?_, ?_, ?_, ?_⟩
  all_goals decide +kernel

end Session

end ProxGrad
