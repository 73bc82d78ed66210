import ProxGrad.Proofs.Options.Rebinding

/-!
# Combination of terms

A composite is made of a differentiable and a proximable term, either by name or as a sum. Terms
that are only one of the two find their places in any order. Where both terms are both, the order
decides: the first one is differentiated if they are combined by name, and in a sum the interface
that the first one's class searches first.
-/

set_option autoImplicit false

namespace ProxGrad

/-! ## The interfaces that add -/

namespace ClassTable

variable {t : ClassTable}

/-- The first of the two interfaces of terms in a search order. -/
def summand? (order : List ClassId) : Option ClassId :=
  order.find? fun a => a = .differentiable ∨ a = .proximable

theorem summand?_eq_some {order : List ClassId} {interface : ClassId}
    (found : summand? order = some interface) :
    (interface = .differentiable ∨ interface = .proximable) ∧ interface ∈ order :=
  ⟨by simpa using List.find?_some found, List.mem_of_find?_eq_some found⟩

theorem summand?_eq_none {order : List ClassId} (missing : summand? order = none) :
    ClassId.differentiable ∉ order ∧ ClassId.proximable ∉ order := by
  have none_of := List.find?_eq_none.mp missing
  exact ⟨fun member => none_of _ member (by simp), fun member => none_of _ member (by simp)⟩

/-- No other class of a table defines a sum. -/
theorem Built.defines_add (built : t.Built) (c : ClassId) :
    ((t.info c).defines.contains .add || (t.info c).declares.contains .add) =
      decide (c = .differentiable ∨ c = .proximable) := by
  by_cases bound : c.index < ClassTable.initial.classes.size
  · have each : ∀ i < ClassTable.initial.classes.size,
        ((ClassTable.initial.info ⟨i⟩).defines.contains .add ||
          (ClassTable.initial.info ⟨i⟩).declares.contains .add) =
          decide ((⟨i⟩ : ClassId) = .differentiable ∨ (⟨i⟩ : ClassId) = .proximable) := by decide
    rw [built.info_of_lt bound]
    exact each c.index bound
  · obtain ⟨defines, declares⟩ := built.info_of_ge (Nat.le_of_not_lt bound)
    have other : ¬ (c = .differentiable ∨ c = .proximable) := by
      rintro (rfl | rfl) <;> exact bound (by decide)
    simp [defines, declares, other]

theorem Built.owner?_add (built : t.Built) (c : ClassId) :
    t.owner? c .add = summand? (t.ancestors c) := by
  have same : (fun a => (t.info a).defines.contains .add || (t.info a).declares.contains .add) =
      fun a => decide (a = .differentiable ∨ a = .proximable) := funext built.defines_add
  rw [owner?, summand?, same]

end ClassTable

namespace Session

open Act

variable {w : World} {a b : Handle}

/-! ## Composites -/

/-- The composite of a differentiable and a proximable term with options. -/
def compositeOf (diff prox options : Handle) : Instance where
  cls := .composite
  fields := [("diff", diff), ("prox", prox), ("options", options)]

/-- An outcome in a world that is a new composite of these parts and nothing else. -/
def Composes (w : World) (diff prox options : Handle) (r : Except Fault Handle × World) : Prop :=
  r = (.ok (.object w.objects.size), w.pushed (compositeOf diff prox options))

/-- An outcome in a world that is an error of types, with nothing made. -/
def Refuses (w : World) (r : Except Fault Handle × World) : Prop :=
  ∃ x y, r = (.error (.cannotCombine x y), w) ∨ r = (.error (.cannotAdd x y), w)

/-- Two outcomes that are both refused, or composites of the same parts. -/
def Agrees (w : World) (options : Handle) (r r' : Except Fault Handle × World) : Prop :=
  Refuses w r ∧ Refuses w r' ∨
    ∃ diff prox, Composes w diff prox options r ∧ Composes w diff prox options r'

theorem Agrees.refl_of_composes {diff prox options : Handle} {r : Except Fault Handle × World}
    (composes : Composes w diff prox options r) : Agrees w options r r :=
  .inr ⟨diff, prox, composes, composes⟩

/-! ## Combining -/

/-- An object that can take both places. -/
def World.IsBoth (w : World) (h : Handle) : Prop :=
  w.isInstance h .differentiable = true ∧ w.isInstance h .proximable = true

/-- Whether two objects can take the places of the differentiable and of the proximable term. -/
def World.Fits (w : World) (first second : Handle) : Prop :=
  w.isInstance first .differentiable = true ∧ w.isInstance second .proximable = true

theorem composes_combineTerms (fits : w.Fits a b) (o : Handle) :
    Composes w a b o ((combineTerms a b o).outcome w) := by
  have places : (w.isInstance a .differentiable && w.isInstance b .proximable) = true := by
    rw [fits.1, fits.2]
    rfl
  rw [combineTerms, outcome_bind, outcome_world]
  simp only [places]
  rfl

theorem composes_combineTerms_swapped (other : ¬ w.Fits a b) (fits : w.Fits b a) (o : Handle) :
    Composes w b a o ((combineTerms a b o).outcome w) := by
  have places : (w.isInstance a .differentiable && w.isInstance b .proximable) = false := by
    rw [← Bool.not_eq_true, Bool.and_eq_true]
    exact other
  have swapped : (w.isInstance a .proximable && w.isInstance b .differentiable) = true := by
    rw [fits.1, fits.2]
    rfl
  rw [combineTerms, outcome_bind, outcome_world]
  simp only [places, swapped]
  rfl

theorem refuses_combineTerms (other : ¬ w.Fits a b) (swapped : ¬ w.Fits b a) (o : Handle) :
    Refuses w ((combineTerms a b o).outcome w) := by
  have places : (w.isInstance a .differentiable && w.isInstance b .proximable) = false := by
    rw [← Bool.not_eq_true, Bool.and_eq_true]
    exact other
  have places' : (w.isInstance a .proximable && w.isInstance b .differentiable) = false := by
    rw [← Bool.not_eq_true, Bool.and_eq_true]
    exact fun both => swapped ⟨both.2, both.1⟩
  refine ⟨w.typeName a, w.typeName b, .inl ?_⟩
  rw [combineTerms, outcome_bind, outcome_world]
  simp only [places, places']
  rfl

/-! ## Sums -/

theorem World.owner?_add (built : w.classes.Built) (h : Handle) :
    w.owner? h .add = ClassTable.summand? (w.ancestors h) := by
  cases held : w.instance? h with
  | none =>
    simp only [World.owner?, World.ancestors, held, Option.bind_none]
    decide
  | some i => simp only [World.owner?, World.ancestors, held, Option.bind_some, built.owner?_add]

theorem isInstance_of_summand? {h : Handle} {interface : ClassId}
    (found : ClassTable.summand? (w.ancestors h) = some interface) :
    w.isInstance h interface = true :=
  List.contains_iff_mem.mpr (ClassTable.summand?_eq_some found).2

/-- The interface of an object that has no other is the one that adds. -/
theorem summand?_of_isInstance {h : Handle} (single : ¬ w.IsBoth h) {interface : ClassId}
    (named : interface = .differentiable ∨ interface = .proximable)
    (instance_of : w.isInstance h interface = true) :
    ClassTable.summand? (w.ancestors h) = some interface := by
  cases found : ClassTable.summand? (w.ancestors h) with
  | none =>
    obtain ⟨_, _⟩ := ClassTable.summand?_eq_none found
    have member := List.contains_iff_mem.mp instance_of
    rcases named with rfl | rfl <;> contradiction
  | some other =>
    have also := isInstance_of_summand? found
    rcases (ClassTable.summand?_eq_some found).1 with rfl | rfl <;> rcases named with rfl | rfl
    · rfl
    · exact absurd ⟨also, instance_of⟩ single
    · exact absurd ⟨instance_of, also⟩ single
    · rfl

theorem addTerms_of_differentiable (built : w.classes.Built)
    (adds : ClassTable.summand? (w.ancestors a) = some .differentiable)
    (proximable : w.isInstance b .proximable = true) :
    (addTerms a b).outcome w = (combineTerms a b exactOptions).outcome w := by
  rw [addTerms, outcome_bind, outcome_world]
  simp only [World.owner?_add built, adds, proximable]
  rfl

theorem addTerms_of_proximable (built : w.classes.Built)
    (adds : ClassTable.summand? (w.ancestors a) = some .proximable)
    (differentiable : w.isInstance b .differentiable = true) :
    (addTerms a b).outcome w = (combineTerms b a exactOptions).outcome w := by
  rw [addTerms, outcome_bind, outcome_world]
  simp only [World.owner?_add built, adds, differentiable]
  rfl

/-- Two objects whose classes do not add them are added as values, which is refused. -/
theorem refuses_addTerms (built : w.classes.Built) (k l : Nat)
    (unfit : ¬ (ClassTable.summand? (w.ancestors (.object k)) = some .differentiable ∧
      w.isInstance (.object l) .proximable = true))
    (unfit' : ¬ (ClassTable.summand? (w.ancestors (.object k)) = some .proximable ∧
      w.isInstance (.object l) .differentiable = true)) :
    Refuses w ((addTerms (.object k) (.object l)).outcome w) := by
  refine ⟨w.typeName (.object k), w.typeName (.object l), .inr ?_⟩
  rw [addTerms, outcome_bind, outcome_world]
  simp only [World.owner?_add built, Bool.and_eq_true, decide_eq_true_eq, if_neg unfit,
    if_neg unfit']
  rfl

/-- The ways a sum of two objects can go. -/
theorem addTerms_cases (built : w.classes.Built) (k l : Nat) :
    (ClassTable.summand? (w.ancestors (.object k)) = some .differentiable ∧
      w.isInstance (.object l) .proximable = true) ∨
    (ClassTable.summand? (w.ancestors (.object k)) = some .proximable ∧
      w.isInstance (.object l) .differentiable = true) ∨
    Refuses w ((addTerms (.object k) (.object l)).outcome w) := by
  by_cases fit : ClassTable.summand? (w.ancestors (.object k)) = some .differentiable ∧
      w.isInstance (.object l) .proximable = true
  · exact .inl fit
  · by_cases fit' : ClassTable.summand? (w.ancestors (.object k)) = some .proximable ∧
        w.isInstance (.object l) .differentiable = true
    · exact .inr (.inl fit')
    · exact .inr (.inr (refuses_addTerms built k l fit fit'))

/-! ## Order and spelling -/

theorem Composes.not_refuses {diff prox options : Handle} {r : Except Fault Handle × World}
    (composes : Composes w diff prox options r) : ¬ Refuses w r := by
  rintro ⟨x, y, refused | refused⟩ <;> cases composes.symm.trans refused

theorem Composes.unique {diff prox diff' prox' options : Handle} {r : Except Fault Handle × World}
    (composes : Composes w diff prox options r) (composes' : Composes w diff' prox' options r) :
    diff = diff' ∧ prox = prox' := by
  have same := congrArg (fun r => r.2.objects.back?) (composes.symm.trans composes')
  simpa [World.pushed, compositeOf] using same

/-- Combining refuses exactly the objects that fit in no order. -/
theorem refuses_combineTerms_iff (o : Handle) :
    Refuses w ((combineTerms a b o).outcome w) ↔ ¬ w.Fits a b ∧ ¬ w.Fits b a := by
  refine ⟨fun refuses => ⟨fun fits => ?_, fun fits => ?_⟩,
    fun unfit => refuses_combineTerms unfit.1 unfit.2 o⟩
  · exact (composes_combineTerms fits o).not_refuses refuses
  · by_cases first : w.Fits a b
    · exact (composes_combineTerms first o).not_refuses refuses
    · exact (composes_combineTerms_swapped first fits o).not_refuses refuses

theorem agrees_combineTerms_swapped (single : ¬ (w.IsBoth a ∧ w.IsBoth b)) (o : Handle) :
    Agrees w o ((combineTerms a b o).outcome w) ((combineTerms b a o).outcome w) := by
  by_cases first : w.Fits a b <;> by_cases second : w.Fits b a
  · exact absurd ⟨⟨first.1, second.2⟩, ⟨second.1, first.2⟩⟩ single
  · exact .inr ⟨a, b, composes_combineTerms first o, composes_combineTerms_swapped second first o⟩
  · exact .inr ⟨b, a, composes_combineTerms_swapped first second o, composes_combineTerms second o⟩
  · exact .inl ⟨refuses_combineTerms first second o, refuses_combineTerms second first o⟩

theorem agrees_addTerms (built : w.classes.Built) {k l : Nat} (single : ¬ w.IsBoth (.object k)) :
    Agrees w exactOptions ((addTerms (.object k) (.object l)).outcome w)
      ((combineTerms (.object k) (.object l) exactOptions).outcome w) := by
  rcases addTerms_cases built k l with ⟨adds, fits⟩ | ⟨adds, fits⟩ | refused
  · rw [addTerms_of_differentiable built adds fits]
    exact .refl_of_composes (composes_combineTerms ⟨isInstance_of_summand? adds, fits⟩ _)
  · have places : w.Fits (.object l) (.object k) := ⟨fits, isInstance_of_summand? adds⟩
    have other : ¬ w.Fits (.object k) (.object l) := fun first => single ⟨first.1, places.2⟩
    rw [addTerms_of_proximable built adds fits]
    exact .inr ⟨_, _, composes_combineTerms places _, composes_combineTerms_swapped other places _⟩
  · refine .inl ⟨refused, (refuses_combineTerms_iff _).mpr ⟨fun first => ?_, fun second => ?_⟩⟩
    · have adds := summand?_of_isInstance single (.inl rfl) first.1
      have composes := composes_combineTerms first exactOptions
      rw [← addTerms_of_differentiable built adds first.2] at composes
      exact composes.not_refuses refused
    · have adds := summand?_of_isInstance single (.inr rfl) second.2
      have composes := composes_combineTerms second exactOptions
      rw [← addTerms_of_proximable built adds second.1] at composes
      exact composes.not_refuses refused

/-- Combination does not depend on the order of two objects unless both can take both places; then
the first is differentiated. A sum is refused whenever the combination is, and gives what that gives
if the object on the left can take one place only, or if the one on the right can and the sum is not
refused. An object on the left that can take both is added by the interface that its class searches
first: as the differentiable term to a proximable one, or as the proximable term to a differentiable
one. -/
theorem combination_in_any_order (built : w.classes.Built) (k l : Nat) :
    let a : Handle := .object k
    let b : Handle := .object l
    (∀ o, Refuses w ((combineTerms a b o).outcome w) ↔ ¬ w.Fits a b ∧ ¬ w.Fits b a) ∧
    (∀ o, ¬ (w.IsBoth a ∧ w.IsBoth b) →
      Agrees w o ((combineTerms a b o).outcome w) ((combineTerms b a o).outcome w)) ∧
    (∀ o, w.IsBoth a → w.IsBoth b → Composes w a b o ((combineTerms a b o).outcome w)) ∧
    (Refuses w ((combineTerms a b exactOptions).outcome w) →
      Refuses w ((addTerms a b).outcome w)) ∧
    (¬ w.IsBoth a → Agrees w exactOptions ((addTerms a b).outcome w)
      ((combineTerms a b exactOptions).outcome w)) ∧
    (¬ w.IsBoth b → Refuses w ((addTerms a b).outcome w) ∨
      Agrees w exactOptions ((addTerms a b).outcome w)
        ((combineTerms a b exactOptions).outcome w)) ∧
    (ClassTable.summand? (w.ancestors a) = some .differentiable →
      w.isInstance b .proximable = true →
      Composes w a b exactOptions ((addTerms a b).outcome w)) ∧
    (ClassTable.summand? (w.ancestors a) = some .proximable →
      w.isInstance b .differentiable = true →
      Composes w b a exactOptions ((addTerms a b).outcome w)) := by
  intro a b
  refine ⟨refuses_combineTerms_iff, fun o single => agrees_combineTerms_swapped single o, ?_, ?_,
    agrees_addTerms built, ?_, ?_, ?_⟩
  · exact fun o first second => composes_combineTerms ⟨first.1, second.2⟩ o
  · intro refused
    obtain ⟨unfit, unfit'⟩ := (refuses_combineTerms_iff _).mp refused
    rcases addTerms_cases built k l with ⟨adds, fits⟩ | ⟨adds, fits⟩ | refuses
    · exact absurd ⟨isInstance_of_summand? adds, fits⟩ unfit
    · exact absurd ⟨fits, isInstance_of_summand? adds⟩ unfit'
    · exact refuses
  · intro single
    rcases addTerms_cases built k l with ⟨adds, fits⟩ | ⟨adds, fits⟩ | refuses
    · rw [addTerms_of_differentiable built adds fits]
      exact .inr (.refl_of_composes (composes_combineTerms ⟨isInstance_of_summand? adds, fits⟩ _))
    · rw [addTerms_of_proximable built adds fits]
      exact .inr (agrees_combineTerms_swapped (fun both => single both.1) _)
    · exact .inl refuses
  · intro adds fits
    rw [addTerms_of_differentiable built adds fits]
    exact composes_combineTerms ⟨isInstance_of_summand? adds, fits⟩ _
  · intro adds fits
    rw [addTerms_of_proximable built adds fits]
    exact composes_combineTerms ⟨fits, isInstance_of_summand? adds⟩ _

/-! ## Terms of both kinds -/

/-- The classes of the library, and one of terms that are smooth and have a proximal map. -/
def classesWithBoth : ClassTable where
  classes := ClassTable.initial.classes.push
    { name := "Both"
      ancestors := [⟨24⟩, .smooth, .differentiable, .zeroTerm, .proximable, .interfaceClass,
        .objectClass] }

theorem extend?_both : ClassTable.initial.extend? "Both" [.smooth, .zeroTerm] =
    some (classesWithBoth, ⟨24⟩) := rfl

theorem built_classesWithBoth : classesWithBoth.Built :=
  .extend .initial (by decide) extend?_both

/-- Two terms of that class, and one of each kind. -/
def fourTerms : World where
  classes := classesWithBoth
  objects := #[{ cls := .exactArgmin }, { cls := ⟨24⟩ }, { cls := ⟨24⟩ }, { cls := .smooth },
    { cls := .zeroTerm }]

/-- A term of each kind gives one composite in all four spellings. -/
theorem smooth_and_zero_combine_in_any_order :
    fourTerms.classes.Built ∧
    Agrees fourTerms exactOptions ((addTerms (.object 4) (.object 3)).outcome fourTerms)
      ((combineTerms (.object 4) (.object 3) exactOptions).outcome fourTerms) ∧
    Agrees fourTerms exactOptions
      ((combineTerms (.object 4) (.object 3) exactOptions).outcome fourTerms)
      ((combineTerms (.object 3) (.object 4) exactOptions).outcome fourTerms) ∧
    Composes fourTerms (.object 3) (.object 4) exactOptions
      ((addTerms (.object 3) (.object 4)).outcome fourTerms) := by
  have single : ¬ fourTerms.IsBoth (.object 4) := fun both => absurd both.1 (by decide)
  obtain ⟨-, swapped, -, -, added, -⟩ :=
    combination_in_any_order (w := fourTerms) built_classesWithBoth 4 3
  obtain ⟨-, -, -, -, -, -, first, -⟩ :=
    combination_in_any_order (w := fourTerms) built_classesWithBoth 3 4
  exact ⟨built_classesWithBoth, added single, swapped exactOptions fun both => single both.1,
    first (by decide) (by decide)⟩

/-- Two terms of both kinds give two composites, one for each order. -/
theorem order_of_two_terms_of_both_kinds_matters :
    fourTerms.IsBoth (.object 1) ∧ fourTerms.IsBoth (.object 2) ∧
    Composes fourTerms (.object 1) (.object 2) exactOptions
      ((combineTerms (.object 1) (.object 2) exactOptions).outcome fourTerms) ∧
    Composes fourTerms (.object 2) (.object 1) exactOptions
      ((combineTerms (.object 2) (.object 1) exactOptions).outcome fourTerms) ∧
    ¬ Agrees fourTerms exactOptions
      ((combineTerms (.object 1) (.object 2) exactOptions).outcome fourTerms)
      ((combineTerms (.object 2) (.object 1) exactOptions).outcome fourTerms) := by
  have first : fourTerms.IsBoth (.object 1) := ⟨by decide, by decide⟩
  have second : fourTerms.IsBoth (.object 2) := ⟨by decide, by decide⟩
  have composes := composes_combineTerms ⟨first.1, second.2⟩ exactOptions
  have composes' := composes_combineTerms ⟨second.1, first.2⟩ exactOptions
  refine ⟨first, second, composes, composes', ?_⟩
  rintro (⟨refused, -⟩ | ⟨diff, prox, same, same'⟩)
  · exact composes.not_refuses refused
  · have order := (composes.unique same).1.trans (composes'.unique same').1.symm
    cases order

end Session

end ProxGrad
