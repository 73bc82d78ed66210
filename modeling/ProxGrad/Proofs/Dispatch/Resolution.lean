import ProxGrad.Proofs.Dispatch.Ancestry
import ProxGrad.Proofs.Dispatch.History
import ProxGrad.Proofs.Dispatch.Settled

/-!
# Resolution after a session

A session's requests, read as a history of its registry: what an operator is resolved to after any
sequence of requests is decided by the registrations that they made and took back.
-/

set_option autoImplicit false

namespace ProxGrad.Session

open Act Registry

/-! ## The change that a request makes -/

/-- The key that the names of an operator, a class of functions and a class of options stand for. -/
def keyNamed? (classes : ClassTable) (operator function options : String) :
    Option (Key ClassId) := do
  let f ← classes.ofName? function
  let o ← classes.ofName? options
  let operator ← Operator.ofName? operator
  return ⟨operator, f, o⟩

/-- The change of the registrations that a request makes where these classes are known. Only an
implementation is registered, and only under names that are known. -/
def Step.change? (classes : ClassTable) : Step → Option (Change ClassId Implementation)
  | .register operator function options (.supplied i) _ _ _ =>
    (keyNamed? classes operator function options).map fun key => .registered key (.supplied i.name)
  | .unregister operator function options =>
    (keyNamed? classes operator function options).map .unregistered
  | _ => none

variable {w w' : World} {result : Except Fault (Answer × Option Handle)}

theorem outcome_classNamed (name : String) (w : World) :
    (classNamed name).outcome w =
      ((w.classes.ofName? name).elim (.error .unknownName) .ok, w) := by
  unfold classNamed
  rw [outcome_bind, outcome_world]
  cases found : w.classes.ofName? name <;> simp [found]

theorem outcome_operatorNamed (name : String) (w : World) :
    (operatorNamed name).outcome w =
      ((Operator.ofName? name).elim (.error .unknownName) .ok, w) := by
  unfold operatorNamed
  cases Operator.ofName? name <;> simp

/-- Taking a registration back removes it if its names are known, and nothing else. -/
theorem outcome_unregister (operator function options : String) (w : World) :
    (perform (.unregister operator function options)).outcome w =
      match keyNamed? w.classes operator function options with
      | some key => (.ok (.nothing, none), { w with registry := w.registry.unregister key })
      | none => (.error .unknownName, w) := by
  simp only [perform, keyNamed?, outcome_bind, outcome_classNamed, outcome_operatorNamed]
  cases w.classes.ofName? function with
  | none => simp
  | some f =>
    cases found : w.classes.ofName? options with
    | none => simp [found]
    | some o => cases Operator.ofName? operator <;> simp [found]

/-- What a registration says of the one that it replaces without leave. -/
def replacement (classes : ClassTable) (key : Key ClassId) (old new : Implementation) : String :=
  "Overriding existing " ++ key.operator.name ++ " for (" ++ classes.name key.function ++ ", "
    ++ classes.name key.options ++ "): " ++ old.text ++ " -> " ++ new.text
    ++ ". Use override=True to suppress this warning."

theorem outcome_registerImplementation (operator : Operator) (f o : ClassId) (name : String)
    (override : Bool) (w : World) :
    (registerImplementation operator f o name override).outcome w =
      (.ok (.text (Implementation.supplied name).text),
        { w with
          registry := w.registry.register ⟨operator, f, o⟩ (.supplied name)
          warnings :=
            ((w.registry.replaced? ⟨operator, f, o⟩ (.supplied name) override).map fun old =>
              replacement w.classes ⟨operator, f, o⟩ old (.supplied name)).elim
                w.warnings w.warnings.push }) := by
  unfold registerImplementation
  simp only [outcome_bind, outcome_world]
  cases w.registry.replaced? ⟨operator, f, o⟩ (.supplied name) override with
  | none => simp
  | some old =>
    simp only [outcome_bind, outcome_modifyWorld]
    exact outcome_pure _ _

theorem outcome_keepImplementation (i : Supplied) (w : World) :
    ∃ supplied, (keepImplementation i).outcome w = (.ok (), { w with supplied }) := by
  unfold keepImplementation
  rw [outcome_modifyWorld]
  split
  · exact ⟨w.supplied, rfl⟩
  · exact ⟨w.supplied ++ [i], rfl⟩

/-- What a request says of a registration that it replaces. -/
def Step.warning? (w : World) : Step → Option String
  | .register operator function options (.supplied i) override _ _ => do
    let key ← keyNamed? w.classes operator function options
    (w.registry.replaced? key (.supplied i.name) override).map fun old =>
      replacement w.classes key old (.supplied i.name)
  | _ => none

/-- A registration makes its change and gives its warning, and it leaves all else as it is but for
the implementations that are known by name. -/
theorem world_register (operator function options : String) (given : Registered)
    (override decorated viaOperator : Bool) (w : World) :
    let step := Step.register operator function options given override decorated viaOperator
    ∃ supplied, ((perform step).outcome w).2 =
      { w with
        supplied
        registry := (step.change? w.classes).elim w.registry w.registry.apply
        warnings := (step.warning? w).elim w.warnings w.warnings.push } := by
  intro step
  cases given with
  | value v =>
    refine ⟨w.supplied, ?_⟩
    simp only [step, perform, register, Step.change?, Step.warning?, outcome_bind, outcome_pure,
      outcome_classNamed, Option.elim_none]
    cases f_named : w.classes.ofName? function <;> cases o_named : w.classes.ofName? options <;>
      cases Operator.ofName? operator <;> cases v.isAbsent <;> cases decorated <;> simp [o_named]
  | supplied i =>
    obtain ⟨supplied, kept⟩ := outcome_keepImplementation i w
    refine ⟨supplied, ?_⟩
    simp only [step, perform, register, Step.change?, Step.warning?, keyNamed?, outcome_bind, kept,
      outcome_classNamed]
    cases f_named : w.classes.ofName? function <;> cases o_named : w.classes.ofName? options <;>
      cases Operator.ofName? operator <;> simp [o_named, outcome_registerImplementation]

/-! ## One request -/

theorem outcome_parents (bases : List String) (w : World) :
    ∃ result, (bases.mapM classNamed).outcome w = (result, w) ∧
      ∀ parents, result = .ok parents → ∀ p ∈ parents, p.index < w.classes.classes.size := by
  induction bases with
  | nil =>
    refine ⟨.ok [], by simp, ?_⟩
    rintro _ ⟨⟩ p member
    cases member
  | cons name rest ih =>
    obtain ⟨result, ran, known⟩ := ih
    rw [List.mapM_cons, outcome_bind, outcome_classNamed]
    cases named : w.classes.ofName? name with
    | none => exact ⟨.error .unknownName, rfl, fun _ impossible => nomatch impossible⟩
    | some c =>
      simp only [Option.elim_some, outcome_bind, ran]
      cases result with
      | error fault => exact ⟨.error fault, rfl, fun _ impossible => nomatch impossible⟩
      | ok parents =>
        refine ⟨.ok (c :: parents), rfl, ?_⟩
        rintro _ ⟨⟩ p member
        rcases List.mem_cons.mp member with rfl | member
        · exact ClassTable.lt_size_of_ofName? named
        · exact known parents rfl p member

/-- A definition adds a subclass of known classes, or fails and changes nothing. -/
theorem outcome_defineClass (name : String) (bases : List String) (w : World) :
    (∃ result, (perform (.defineClass name bases)).outcome w = (result, w)) ∨
      ∃ result classes parents own, (∀ p ∈ parents, p.index < w.classes.classes.size) ∧
        w.classes.extend? name parents = some (classes, own) ∧
        (perform (.defineClass name bases)).outcome w = (result, { w with classes }) := by
  obtain ⟨result, ran, known⟩ := outcome_parents bases w
  simp only [perform, defineClass, outcome_bind, ran, outcome_world]
  cases result with
  | error fault => exact .inl ⟨_, rfl⟩
  | ok parents =>
    cases extended : w.classes.extend? name parents with
    | none => exact .inl ⟨.error .operandTypes, by simp [extended]⟩
    | some new =>
      exact .inr ⟨.ok (.names (new.1.ancestorNames new.2), none), new.1, parents, new.2,
        known parents rfl, extended, by simp [extended]⟩

theorem registry_perform (step : Step) (w : World) :
    ((perform step).outcome w).2.registry =
      (step.change? w.classes).elim w.registry w.registry.apply := by
  cases step with
  | register operator function options given override decorated viaOperator =>
    obtain ⟨supplied, same⟩ :=
      world_register operator function options given override decorated viaOperator w
    rw [same]
  | unregister operator function options =>
    rw [outcome_unregister, Step.change?]
    cases keyNamed? w.classes operator function options <;> simp
  | defineClass name bases =>
    obtain ⟨result, ran⟩ | ⟨result, classes, parents, own, -, -, ran⟩ :=
      outcome_defineClass name bases w <;> rw [ran] <;> rfl
  | _ => exact (settled_perform rfl w).1

theorem built_perform (step : Step) {w : World} (built : w.classes.Built) :
    ((perform step).outcome w).2.classes.Built := by
  by_cases other : step.isDeclaration = false
  · rw [(settled_perform other w).2]
    exact built
  · cases step with
    | register operator function options given override decorated viaOperator =>
      obtain ⟨supplied, same⟩ :=
        world_register operator function options given override decorated viaOperator w
      rw [same]
      exact built
    | unregister operator function options =>
      rw [outcome_unregister]
      cases keyNamed? w.classes operator function options <;> exact built
    | defineClass name bases =>
      obtain ⟨result, ran⟩ | ⟨result, classes, parents, own, known, extended, ran⟩ :=
        outcome_defineClass name bases w
      · rw [ran]
        exact built
      · rw [ran]
        exact .extend built known extended
    | _ => exact absurd rfl other

/-! ## All requests -/

/-- The world in which a request starts: nothing has been observed of it yet. -/
def World.unobserved (w : World) : World :=
  { w with memory := { w.memory with calls := #[], reports := #[] }, warnings := #[] }

theorem world_bindVariable (name : String) (h : Handle) (w : World) :
    ∃ bindings, bindVariable name h w = { w with bindings } := by
  unfold bindVariable
  split <;> exact ⟨_, rfl⟩

/-- A request performs its step. Beyond that it binds a variable at most. -/
theorem world_runRequest (r : Request) (w : World) :
    ∃ bindings, (runRequest r w).2 = { ((perform r.step).outcome w.unobserved).2 with bindings } ∧
      (runRequest r w).1.warnings =
        ((perform r.step).outcome w.unobserved).2.warnings.toList := by
  unfold runRequest Act.outcome World.unobserved
  dsimp only
  rcases ExceptT.run (perform r.step) _ with ⟨fault | ⟨answer, h⟩, w'⟩
  · exact ⟨w'.bindings, rfl, rfl⟩
  · dsimp only
    split <;> split
    · obtain ⟨bindings, same⟩ := world_bindVariable _ _ w'
      exact ⟨bindings, same, congrArg (fun w => w.warnings.toList) same⟩
    · exact ⟨w'.bindings, rfl, rfl⟩
    · obtain ⟨bindings, same⟩ := world_bindVariable _ _ w'
      exact ⟨bindings, same, congrArg (fun w => w.warnings.toList) same⟩
    · exact ⟨w'.bindings, rfl, rfl⟩

theorem registry_runRequest (r : Request) (w : World) :
    (runRequest r w).2.registry = (r.step.change? w.classes).elim w.registry w.registry.apply := by
  obtain ⟨bindings, same, -⟩ := world_runRequest r w
  rw [same]
  exact registry_perform r.step w.unobserved

theorem built_runRequest (r : Request) {w : World} (built : w.classes.Built) :
    (runRequest r w).2.classes.Built := by
  obtain ⟨bindings, same, -⟩ := world_runRequest r w
  rw [same]
  exact built_perform r.step (w := w.unobserved) built

/-- The world that a sequence of requests leaves on a machine with space for so many bytes. -/
def worldAfter (space : Option Nat) (requests : List Request) : World :=
  requests.foldl (fun w r => (runRequest r w).2) { space }

/-- The changes that requests make one after the other, from a world on. -/
def changesFrom (w : World) : List Request → List (Change ClassId Implementation)
  | [] => []
  | r :: rest => (r.step.change? w.classes).toList ++ changesFrom (runRequest r w).2 rest

/-- The registrations that a session starts with. -/
def initialChanges : List (Change ClassId Implementation) :=
  initialRegistry.entries.reverse.map fun entry => .registered entry.1 entry.2

/-- All changes of the registrations up to the end of a sequence of requests. -/
def history (space : Option Nat) (requests : List Request) :
    List (Change ClassId Implementation) :=
  initialChanges ++ changesFrom { space } requests

theorem changesFrom_concat (w : World) (requests : List Request) (r : Request) :
    changesFrom w (requests ++ [r]) = changesFrom w requests ++
      (r.step.change? (requests.foldl (fun w r => (runRequest r w).2) w).classes).toList := by
  induction requests generalizing w with
  | nil => simp [changesFrom]
  | cons first rest ih => simp [changesFrom, ih]

section

variable (space : Option Nat) (requests : List Request)

theorem worldAfter_concat (r : Request) :
    worldAfter space (requests ++ [r]) = (runRequest r (worldAfter space requests)).2 := by
  simp [worldAfter]

theorem history_concat (r : Request) :
    history space (requests ++ [r]) =
      history space requests ++ (r.step.change? (worldAfter space requests).classes).toList := by
  simp [history, changesFrom_concat, worldAfter]

theorem registry_worldAfter :
    (worldAfter space requests).registry = replay (history space requests) := by
  induction requests using List.reverseRecOn with
  | nil => rfl
  | append_singleton earlier r ih =>
    rw [worldAfter_concat, registry_runRequest, history_concat, ih]
    cases r.step.change? (worldAfter space earlier).classes <;> simp

theorem built_worldAfter : (worldAfter space requests).classes.Built := by
  induction requests using List.reverseRecOn with
  | nil => exact .initial
  | append_singleton earlier r ih =>
    rw [worldAfter_concat]
    exact built_runRequest r ih

end

/-! ## What is resolved, and what is warned of -/

/-- A change puts one implementation in the place of another that is live, without leave. -/
structure Replaces (history : List (Change ClassId Implementation))
    (change : Option (Change ClassId Implementation)) (override : Bool) (key : Key ClassId)
    (old new : Implementation) : Prop where
  change : change = some (.registered key new)
  live : Live history key old
  different : old ≠ new
  unasked : override = false

theorem replaced?_eq_some_iff {r : Registry ClassId Implementation} {key : Key ClassId}
    {old new : Implementation} {override : Bool} :
    r.replaced? key new override = some old ↔
      r.find? key = some old ∧ old ≠ new ∧ override = false := by
  simp [replaced?, Option.filter_eq_some_iff]

variable {space : Option Nat} {requests : List Request} {operator function options : String}
  {given : Registered} {override decorated viaOperator : Bool}

theorem warning?_register_eq_some_iff {text : String} :
    let w := worldAfter space requests
    let step := Step.register operator function options given override decorated viaOperator
    step.warning? w = some text ↔
      ∃ key old new,
        Replaces (history space requests) (step.change? w.classes) override key old new ∧
          replacement w.classes key old new = text := by
  intro w step
  cases given with
  | value v =>
    constructor
    · intro impossible
      cases impossible
    · rintro ⟨key, old, new, ⟨impossible, -, -, -⟩, -⟩
      cases impossible
  | supplied i =>
    simp only [step, Step.warning?, Step.change?, Option.bind_eq_bind, Option.bind_eq_some_iff,
      Option.map_eq_some_iff, replaced?_eq_some_iff, w, registry_worldAfter,
      find?_replay_eq_some_iff]
    constructor
    · rintro ⟨key, named, old, ⟨live, different, unasked⟩, said⟩
      exact ⟨key, old, .supplied i.name, ⟨by simp [named], live, different, unasked⟩, said⟩
    · rintro ⟨key, old, new, ⟨made, live, different, unasked⟩, said⟩
      obtain ⟨_, named, same⟩ := Option.map_eq_some_iff.mp made
      cases same
      exact ⟨key, named, old, ⟨live, different, unasked⟩, said⟩

/-- A registration gives the warning that it has to give, and no other. -/
theorem warnings_register (bind : Option String) (w : World) :
    let step := Step.register operator function options given override decorated viaOperator
    (runRequest ⟨bind, step⟩ w).1.warnings = (step.warning? w).toList := by
  intro step
  obtain ⟨_, -, told⟩ := world_runRequest ⟨bind, step⟩ w
  obtain ⟨_, left⟩ := world_register operator function options given override decorated
    viaOperator w.unobserved
  rw [told, left]
  change ((step.warning? w).elim #[] #[].push).toList = _
  cases step.warning? w <;> rfl

theorem exists_ancestors_eq {w : World} (built : w.classes.Built) (h : Handle) :
    ∃ c, w.ancestors h = w.classes.ancestors c := by
  unfold World.ancestors
  cases w.instance? h with
  | none => exact ⟨.objectClass, built.coherent.root.symm⟩
  | some i => exact ⟨i.cls, rfl⟩

/-- No registration that applies to an object is for a proper subclass of the one that is taken:
its class would have been searched earlier. -/
theorem not_isSubclass_of_first {w : World} (built : w.classes.Built)
    {changes : List (Change ClassId Implementation)} {operator : Operator}
    {function options : Handle} {f o f' o' : ClassId} {i j : Implementation}
    (first : First changes operator (w.ancestors function) (w.ancestors options) f o i)
    (function_mem : f' ∈ w.ancestors function) (options_mem : o' ∈ w.ancestors options)
    (live : Live changes ⟨operator, f', o'⟩ j) :
    ¬ (w.classes.isSubclass f' f = true ∧ f' ≠ f) ∧
      ¬ (f' = f ∧ w.classes.isSubclass o' o = true ∧ o' ≠ o) := by
  have later := first.first f' function_mem o' options_mem j live
  obtain ⟨c, function_order⟩ := exists_ancestors_eq built function
  obtain ⟨d, options_order⟩ := exists_ancestors_eq built options
  rw [function_order] at function_mem
  rw [options_order] at options_mem
  rw [function_order, options_order] at later
  constructor
  · rintro ⟨subclass, proper⟩
    exact later (.inl (built.coherent.idxOf_lt function_mem subclass proper))
  · rintro ⟨same, subclass, proper⟩
    exact later (.inr ⟨same, built.coherent.idxOf_lt options_mem subclass proper⟩)

/-- After any requests on any machine, an operator is resolved to the implementation that was
registered last, and not taken back since, for the first pair of classes of the two search orders
that has one; it is not implemented exactly where no pair has one. No registration that applies is
for a proper subclass of the function's class that is taken, nor for this class and a proper
subclass of the options' class. A further registration warns exactly where it replaces another live
implementation without leave. -/
theorem resolution_after_requests (space : Option Nat) (requests : List Request) :
    let w := worldAfter space requests
    let changes := history space requests
    (∀ operator function options,
      (∀ i, resolve? w operator function options = some i ↔
        ∃ f o, First changes operator (w.ancestors function) (w.ancestors options) f o i) ∧
      (resolve? w operator function options = none ↔
        ∀ f ∈ w.ancestors function, ∀ o ∈ w.ancestors options, ∀ i,
          ¬ Live changes ⟨operator, f, o⟩ i) ∧
      ∀ f o i, First changes operator (w.ancestors function) (w.ancestors options) f o i →
        ∀ f' ∈ w.ancestors function, ∀ o' ∈ w.ancestors options, ∀ j,
          Live changes ⟨operator, f', o'⟩ j →
          ¬ (w.classes.isSubclass f' f = true ∧ f' ≠ f) ∧
            ¬ (f' = f ∧ w.classes.isSubclass o' o = true ∧ o' ≠ o)) ∧
    ∀ bind operator function options given override decorated viaOperator,
      let step := Step.register operator function options given override decorated viaOperator
      let change := step.change? w.classes
      (∀ key old new, Replaces changes change override key old new →
        (runRequest ⟨bind, step⟩ w).1.warnings = [replacement w.classes key old new]) ∧
      ((¬ ∃ key old new, Replaces changes change override key old new) →
        (runRequest ⟨bind, step⟩ w).1.warnings = []) := by
  intro w changes
  have held : w.registry = replay changes := registry_worldAfter space requests
  refine ⟨fun operator function options => ⟨fun i => ?_, ?_, ?_⟩, ?_⟩
  · unfold Session.resolve?
    rw [held]
    exact resolve?_replay_eq_some_iff
  · unfold Session.resolve?
    rw [held]
    exact resolve?_replay_eq_none_iff
  · intro f o i first f' function_mem o' options_mem j live
    exact not_isSubclass_of_first (built_worldAfter space requests) first function_mem options_mem
      live
  · intro bind operator function options given override decorated viaOperator step change
    rw [warnings_register]
    constructor
    · intro key old new replaces
      rw [warning?_register_eq_some_iff.mpr ⟨key, old, new, replaces, rfl⟩]
      rfl
    · intro none
      cases warned : step.warning? w with
      | none => rfl
      | some text =>
        obtain ⟨key, old, new, replaces, -⟩ := warning?_register_eq_some_iff.mp warned
        exact absurd ⟨key, old, new, replaces⟩ none

end ProxGrad.Session
