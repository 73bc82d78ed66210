import ProxGrad.Configuration.Document
import ProxGrad.Proofs.Dispatch.Resolution
import ProxGrad.Proofs.Options.Rebinding

/-!
# Options that are reached

Options can be made by a constructor, by the function that allocates a history, from a configuration
or its document, and from other options by rebinding the constant. Whatever sequence of these makes
them, all options of a world are well-formed, and a chain of rebindings shares every field but the
constant.
-/

set_option autoImplicit false

namespace ProxGrad.Session

open Act FistaOptions

/-! ## Ways of making options -/

/-- The options of a configuration that is made from a mapping, after assignments that are not
checked. -/
def configuredOptions (data assigned : List (String × Value)) : Act FistaOptions := do
  let c ← lift (Configuration.ofFields data)
  let c ← lift (assigned.foldlM (fun c (field, v) => c.assign field v) c)
  let w ← world
  onMemory fun _ => c.toOptions w.space

def loadedOptions (source : Source) : Act FistaOptions := do
  let c ← lift (Configuration.load source)
  let w ← world
  onMemory fun _ => c.toOptions w.space

/-- One way of making options, or an empty subclass that further options may be of. -/
inductive Making where
  | subclass (name : String) (bases : List String)
  | constructed (cls : ClassId) (arguments : FistaArguments)
  | built (arguments : FistaArguments)
  | rebound (options : Handle) (lipschitz : Value)
  | configured (data assigned : List (String × Value))
  | loaded (source : Source)

def Making.perform : Making → Act (Answer × Option Handle)
  | .subclass name bases => Session.perform (.defineClass name bases)
  | .constructed cls arguments => newOptions cls arguments
  | .built arguments => do newFista .fistaArgmin (← buildFista arguments)
  | .rebound options lipschitz => rebind options lipschitz
  | .configured data assigned => do newFista .fistaArgmin (← configuredOptions data assigned)
  | .loaded source => do newFista .fistaArgmin (← loadedOptions source)

/-- The world after options were made in several ways, one after the other, of which some may have
failed. -/
def afterMakings (w : World) (makings : List Making) : World :=
  makings.foldl (fun w making => (making.perform.outcome w).2) w

/-! ## What is made -/

variable {w w' : World} {h : Handle} {i : Instance} {o : FistaOptions}

namespace Act

variable {α β : Type}

/-- An action that adds no options to a world, but makes well-formed ones if it succeeds. -/
def Makes (a : Act FistaOptions) : Prop :=
  Growing a ∧ ∀ w w' o, a.outcome w = (.ok o, w') → o.WellFormed w'.memory

theorem Makes.bind {a : Act α} {f : α → Act FistaOptions} (first : Growing a)
    (next : ∀ x, Makes (f x)) : Makes (a >>= f) := by
  refine ⟨growing_bind first fun x => (next x).1, fun w w' o made => ?_⟩
  obtain ⟨x, between, -, rest⟩ := outcome_bind_eq_ok made
  exact (next x).2 between w' o rest

theorem Makes.optionsSound {a : Act FistaOptions} (makes : Makes a) (sound : w.OptionsSound)
    {cls : ClassId} (subclass : w.classes.isSubclass cls .fistaArgmin = true)
    {f : FistaOptions → Act β}
    (adds : ∀ o w', ((f o).outcome w').2 = w'.pushed { cls, body := .fista o }) :
    ((a >>= f).outcome w).2.OptionsSound := by
  have grows := makes.1 w
  refine leaves_bind (sound.grows grows) fun o w' ran => ?_
  rw [ran] at grows
  rw [adds]
  exact (sound.grows grows).pushed (makes.2 w w' o ran) (grows.classes ▸ subclass)

end Act

theorem makes_build (space : Option Nat)
    (lipschitz accelerated resetCounter iterations verbose recorded : Value) :
    Makes (onMemory fun _ =>
      build space lipschitz accelerated resetCounter iterations verbose recorded) := by
  refine ⟨growing_onMemory fun _ => lasting_build _ _ _ _ _ _ _, fun w w' o made => ?_⟩
  obtain ⟨m, built, rfl⟩ := outcome_onMemory_eq_ok made
  exact wellFormed_of_build built

theorem makes_buildFista (a : FistaArguments) : Makes (buildFista a) :=
  .bind (growing_givenObjects _) fun _ => .bind growing_world fun _ => makes_build _ _ _ _ _ _ _

theorem makes_configuredOptions (data assigned : List (String × Value)) :
    Makes (configuredOptions data assigned) :=
  .bind (growing_lift _) fun _ => .bind (growing_lift _) fun _ => .bind growing_world fun _ =>
    makes_build _ _ _ _ _ _ _

theorem makes_loadedOptions (source : Source) : Makes (loadedOptions source) :=
  .bind (growing_lift _) fun _ => .bind growing_world fun _ => makes_build _ _ _ _ _ _ _

theorem content?_of_shown_eq_array {a : NDArray} (shows : w.shown h = .array a) :
    w.content? h = some (.array a) := by
  unfold World.shown at shows
  split at shows
  · exact shows ▸ ‹_›
  · cases shows

theorem wellFormed_of_outcome_make
    {lipschitz accelerated resetCounter iterations verbose : Value}
    {history : Option (Cell × Value)}
    (given : ∀ cell a, history = some (cell, .array a) → w.memory.content cell = some (.array a))
    (made : (lift (make lipschitz accelerated resetCounter iterations verbose history)).outcome w =
      (.ok o, w')) :
    o.WellFormed w'.memory := by
  obtain ⟨accepted, rfl⟩ := outcome_lift_eq_ok made
  exact wellFormed_of_make given accepted

theorem makes_constructFista (given : Given) : Makes (constructFista given) := by
  refine ⟨growing_constructFista given, fun w w' o made => ?_⟩
  unfold constructFista at made
  obtain ⟨_, _, seen, made⟩ := outcome_bind_eq_ok made
  cases seen
  simp only [] at made
  split at made
  · cases made
  · split at made
    · exact wellFormed_of_outcome_make (fun _ _ none => by cases none) made
    · rename_i h _
      split at made
      · exact wellFormed_of_outcome_make (fun _ _ none => by cases none) made
      · obtain ⟨cell, between, found, made⟩ := outcome_bind_eq_ok made
        -- Only data shows an array, so that the history that fits is the given cell itself.
        refine wellFormed_of_outcome_make (fun c a shows => ?_) made
        obtain ⟨rfl, array⟩ := Prod.mk.inj (Option.some.inj shows)
        have held := content?_of_shown_eq_array array
        cases h with
        | data c =>
          cases found
          exact held
        | object k => cases held

/-! ## Each way keeps the invariant -/

/-- A class whose constructor is that of options is one of options. -/
theorem isSubclass_of_owner?_construct {c : ClassId}
    (owned : (w.classes.owner? c .construct).getD .objectClass = .fistaArgmin) :
    w.classes.isSubclass c .fistaArgmin = true := by
  cases found : w.classes.owner? c .construct with
  | none =>
    rw [found] at owned
    cases owned
  | some owner =>
    rw [found, Option.getD_some] at owned
    subst owned
    exact List.contains_iff_mem.mpr (List.mem_of_find?_eq_some found)

theorem optionsSound_instantiate (sound : w.OptionsSound) (c : ClassId) (given : Given) :
    ((instantiate c given).outcome w).2.OptionsSound := by
  unfold instantiate
  simp only [outcome_bind, outcome_world]
  split
  · exact sound
  · by_cases owned : (w.classes.owner? c .construct).getD .objectClass = .fistaArgmin
    · simp only [owned, if_true]
      exact (makes_constructFista given).optionsSound sound (isSubclass_of_owner?_construct owned)
        fun _ _ => rfl
    · -- Any other constructor makes an instance that carries no options.
      simp only [owned, if_false]
      refine sound.grows (growing_bind (growing_fieldsOf _ given) (fun fields => ?_) w)
      exact growing_newInstance fun o body => by cases body

theorem optionsSound_newOptions (sound : w.OptionsSound) (c : ClassId) (a : FistaArguments) :
    ((newOptions c a).outcome w).2.OptionsSound := by
  have grown := sound.grows (growing_givenObjects a.named w)
  refine leaves_bind grown fun given w' read => ?_
  rw [read] at grown
  have made := optionsSound_instantiate grown c given
  refine leaves_bind made fun h w'' ran => ?_
  rw [ran] at made
  exact made

theorem optionsSound_rebind (sound : w.OptionsSound) (h : Handle) (L : Value) :
    ((rebind h L).outcome w).2.OptionsSound := by
  by_cases made : ∃ i o, w.instance? h = some i ∧ i.body = .fista o
  · obtain ⟨i, o, held, body⟩ := made
    cases checked : checkLipschitz L with
    | error fault =>
      rw [outcome_rebind_of_error sound held body checked]
      exact sound
    | ok _ =>
      obtain ⟨answer, rebound⟩ := outcome_rebind sound held body checked
      obtain ⟨wellFormed, subclass, fields⟩ := sound.of_instance? held body
      obtain ⟨cls, _, _⟩ := i
      cases fields
      rw [rebound]
      exact sound.pushed (wellFormed.rebind (withLipschitz_eq_ok checked o)) subclass
  · obtain ⟨fault, failed, -⟩ := exists_rebind_eq_error (h := h) sound.built
      (fun i o held body => made ⟨i, o, held, body⟩) L
    rw [failed]
    exact sound

theorem optionsSound_defineClass (sound : w.OptionsSound) (name : String) (bases : List String) :
    ((perform (.defineClass name bases)).outcome w).2.OptionsSound := by
  obtain ⟨result, same⟩ | ⟨result, classes, parents, own, known, extended, grown⟩ :=
    outcome_defineClass name bases w
  · rw [same]
    exact sound
  · rw [grown]
    refine ⟨.extend sound.built known extended, fun k i o held body => ?_⟩
    obtain ⟨wellFormed, subclass, fields⟩ := sound.made k i o held body
    exact ⟨wellFormed, ClassTable.isSubclass_of_extend? extended subclass (by decide), fields⟩

theorem World.OptionsSound.perform (sound : w.OptionsSound) (making : Making) :
    (making.perform.outcome w).2.OptionsSound := by
  have options : w.classes.isSubclass .fistaArgmin .fistaArgmin = true :=
    sound.built.isSubclass_self (by decide)
  cases making with
  | subclass name bases => exact optionsSound_defineClass sound name bases
  | constructed cls arguments => exact optionsSound_newOptions sound cls arguments
  | built arguments =>
    exact (makes_buildFista arguments).optionsSound sound options fun _ _ => rfl
  | rebound options lipschitz => exact optionsSound_rebind sound options lipschitz
  | configured data assigned =>
    exact (makes_configuredOptions data assigned).optionsSound sound options fun _ _ => rfl
  | loaded source => exact (makes_loadedOptions source).optionsSound sound options fun _ _ => rfl

theorem World.OptionsSound.afterMakings (sound : w.OptionsSound) (makings : List Making) :
    (afterMakings w makings).OptionsSound := by
  induction makings generalizing w with
  | nil => exact sound
  | cons making rest ih => exact ih (sound.perform making)

/-! ## After all of them -/

/-- Whatever sequence of makings led to a world, all of its options are well-formed: the constant is
absent or a positive number, the counts are absent or in their range, and a history has one entry
for each iteration. Options that were made as such are rebound to any constants that are accepted;
other instances of a class of options are not, as their constructor takes no constant. The
constructor of options and the function that allocates a history refuse the same constants and
counts, with the same fault. -/
theorem options_stay_well_formed {start : World} (sound : start.OptionsSound)
    (makings : List Making) :
    let w := afterMakings start makings
    (∀ h o, w.fistaOptions? h = some o → o.WellFormed w.memory) ∧
      (∀ h i o, w.instance? h = some i → i.body = .fista o → w.Rebinds h i o) ∧
      (∀ h, (∀ i o, w.instance? h = some i → i.body ≠ .fista o) → ∀ L,
        ∃ fault, (rebind h L).outcome w = (.error fault, w) ∧
          ((w.fistaOptions? h).isSome → checkLipschitz L = .ok () → fault = .operandTypes)) ∧
      ∀ L resetCounter iterations, DecidedAlike L resetCounter iterations := by
  intro w
  have sound : w.OptionsSound := sound.afterMakings makings
  exact ⟨fun h o => sound.wellFormed, fun h i o => sound.rebinds,
    fun h => exists_rebind_eq_error sound.built, decidedAlike⟩

/-- Options of an empty configuration are rebound to two, and these to five. -/
theorem configured_options_keep_last_constant :
    ({} : World).OptionsSound ∧
      ∃ h' w', (rebindEach (.object 1) [.int 2, .int 5]).outcome
          (afterMakings {} [.configured [] []]) = (.ok h', w') ∧
        w'.instance? h' = some
          { cls := .fistaArgmin, body := .fista { defaultFista with lipschitz := .int 5 } } := by
  have sound := World.optionsSound_initial
  obtain ⟨-, rebinds, -⟩ := options_stay_well_formed sound [.configured [] []]
  have chained := (rebinds (.object 1) { cls := .fistaArgmin, body := .fista defaultFista }
    defaultFista rfl rfl).chained [.int 2, .int 5]
  obtain ⟨h', w', ran, last, -⟩ := chained fun L member => by
    rcases List.mem_cons.mp member with rfl | member
    · rfl
    · rw [List.mem_singleton.mp member]
      rfl
  exact ⟨sound, h', w', ran, last⟩

/-- The constructor of an empty subclass may be that of another base, and takes no constant then:
options of the class are not rebound to two, which is accepted as a constant. -/
theorem options_of_other_constructor_are_not_rebound :
    ∃ classes, ClassTable.initial.extend? "X" [.exactArgmin, .fistaArgmin] =
        some (classes, ⟨24⟩) ∧
      let w := ((instantiate ⟨24⟩ []).outcome { classes }).2
      ((instantiate ⟨24⟩ []).outcome { classes }).1 = .ok (.object 1) ∧
        w.classes.isSubclass ⟨24⟩ .fistaArgmin = true ∧
        w.fistaOptions? (.object 1) = some defaultFista ∧
        checkLipschitz (.int 2) = .ok () ∧
        ((rebind (.object 1) (.int 2)).outcome w).1 = .error .operandTypes := by
  refine ⟨_, rfl, ?_⟩
  intro w
  exact ⟨rfl, rfl, rfl, rfl, rfl⟩

end ProxGrad.Session
