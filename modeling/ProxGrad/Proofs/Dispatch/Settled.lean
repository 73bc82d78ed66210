import ProxGrad.Session.Run

/-!
# What requests leave alone

Classes change only where one is defined, registrations only where one is made or taken back: every
other action of a session is settled. The rule for a sequence of actions carries the argument from
one action to those that call it.
-/

set_option autoImplicit false

namespace ProxGrad.Session

variable {α β : Type}

/-! ## Outcomes -/

/-- The result of an action in a world, and the world that it leaves. -/
def Act.outcome (a : Act α) (w : World) : Except Fault α × World :=
  a.run w

namespace Act

@[simp]
theorem outcome_bind (a : Act α) (next : α → Act β) (w : World) :
    (a >>= next).outcome w = match a.outcome w with
      | (.ok x, w') => (next x).outcome w'
      | (.error fault, w') => (.error fault, w') := by
  unfold outcome
  rw [ExceptT.run_bind]
  simp only [bind, StateT.bind]
  cases a.run w with
  | mk result w' => cases result <;> rfl

@[simp]
theorem outcome_pure (x : α) (w : World) : (pure x : Act α).outcome w = (.ok x, w) := rfl

@[simp]
theorem outcome_throw (fault : Fault) (w : World) :
    (throw fault : Act α).outcome w = (.error fault, w) := rfl

@[simp]
theorem outcome_map (f : α → β) (a : Act α) (w : World) :
    (f <$> a).outcome w = match a.outcome w with
      | (.ok x, w') => (.ok (f x), w')
      | (.error fault, w') => (.error fault, w') := by
  rw [map_eq_pure_bind, outcome_bind]
  rfl

@[simp]
theorem outcome_world (w : World) : world.outcome w = (.ok w, w) := rfl

@[simp]
theorem outcome_modifyWorld (f : World → World) (w : World) :
    (modifyWorld f).outcome w = (.ok (), f w) := rfl

@[simp]
theorem outcome_lift (r : Except Fault α) (w : World) : (Act.lift r).outcome w = (r, w) := rfl

theorem outcome_lift_eq_ok {r : Except Fault α} {w w' : World} {x : α}
    (ran : (Act.lift r).outcome w = (.ok x, w')) : r = .ok x ∧ w' = w := by
  cases ran
  exact ⟨rfl, rfl⟩

theorem outcome_onMemory_eq_ok {f : World → Action Value α} {w w' : World} {x : α}
    (ran : (onMemory f).outcome w = (.ok x, w')) :
    ∃ m, (f w).run w.memory = (.ok x, m) ∧ w' = { w with memory := m } := by
  obtain ⟨result, world⟩ := Prod.ext_iff.mp ran
  exact ⟨_, Prod.ext result rfl, world.symm⟩

theorem outcome_bind_eq_ok {a : Act α} {next : α → Act β} {w w' : World} {result : β}
    (ran : (a >>= next).outcome w = (.ok result, w')) :
    ∃ value between, a.outcome w = (.ok value, between) ∧
      (next value).outcome between = (.ok result, w') := by
  rw [outcome_bind] at ran
  cases first : a.outcome w with
  | mk result between =>
    rw [first] at ran
    cases result with
    | ok value => exact ⟨value, between, rfl, ran⟩
    | error fault => cases ran

/-- What the first action of a sequence leaves, and the second after each of its successes, the
sequence leaves. -/
theorem leaves_bind {P : World → Prop} {a : Act α} {next : α → Act β} {w : World}
    (first : P (a.outcome w).2)
    (second : ∀ x w', a.outcome w = (.ok x, w') → P ((next x).outcome w').2) :
    P ((a >>= next).outcome w).2 := by
  rw [outcome_bind]
  cases ran : a.outcome w with
  | mk result w' =>
    rw [ran] at first
    cases result with
    | ok x => exact second x w' ran
    | error fault => exact first

/-- An action after which the classes and the registrations are those before it, also if it
fails. -/
def Settled (a : Act α) : Prop :=
  ∀ w : World, (a.outcome w).2.registry = w.registry ∧ (a.outcome w).2.classes = w.classes

end Act

open Act

/-! ## Rules -/

@[grind ←]
theorem settled_pure (x : α) : Settled (pure x : Act α) := fun _ => ⟨rfl, rfl⟩

@[grind ←]
theorem settled_throw (fault : Fault) : Settled (throw fault : Act α) := fun _ => ⟨rfl, rfl⟩

@[grind ←]
theorem settled_bind {a : Act α} {f : α → Act β} (first : Settled a) (next : ∀ x, Settled (f x)) :
    Settled (a >>= f) := by
  intro w
  have here := first w
  refine leaves_bind (P := fun w' => w'.registry = w.registry ∧ w'.classes = w.classes) here
    fun x w' ran => ?_
  rw [ran] at here
  exact ⟨(next x w').1.trans here.1, (next x w').2.trans here.2⟩

@[grind ←]
theorem settled_map {a : Act α} (settled : Settled a) (f : α → β) : Settled (f <$> a) := by
  rw [map_eq_pure_bind]
  exact settled_bind settled fun x => settled_pure (f x)

@[grind ←]
theorem settled_discard {a : Act α} (settled : Settled a) : Settled (discard a) :=
  settled_map settled fun _ => ()

@[grind ←]
theorem settled_mapM {f : α → Act β} (each : ∀ x, Settled (f x)) (l : List α) :
    Settled (l.mapM f) := by
  induction l with
  | nil => exact settled_pure []
  | cons x l ih =>
    rw [List.mapM_cons]
    exact settled_bind (each x) fun _ => settled_bind ih fun _ => settled_pure _

@[grind ←]
theorem settled_world : Settled world := fun _ => ⟨rfl, rfl⟩

@[grind ←]
theorem settled_modifyWorld {f : World → World}
    (registry : (fun w => (f w).registry) = fun w => w.registry)
    (classes : (fun w => (f w).classes) = fun w => w.classes) : Settled (modifyWorld f) :=
  fun w => ⟨congrFun registry w, congrFun classes w⟩

@[grind ←]
theorem settled_lift (r : Except Fault α) : Settled (lift r) := fun _ => ⟨rfl, rfl⟩

@[grind ←]
theorem settled_onMemory (f : World → Action Value α) : Settled (onMemory f) := fun _ => ⟨rfl, rfl⟩

/-! ## Operands -/

@[grind ←]
theorem settled_newData (v : Value) : Settled (newData v) := by
  unfold newData
  grind

@[grind ←]
theorem settled_newInstance (i : Instance) : Settled (newInstance i) := by
  unfold newInstance
  grind

@[grind ←]
theorem settled_operand (o : Operand) : Settled (operand o) := by
  unfold operand
  grind

@[grind ←]
theorem settled_optional (o : Option Operand) : Settled (Act.optional o) := by
  unfold Act.optional
  grind

@[grind ←]
theorem settled_operandValue (o : Operand) : Settled (operandValue o) := by
  unfold operandValue
  grind

@[grind ←]
theorem settled_optionalValue (initial : Value) (o : Option Operand) :
    Settled (optionalValue initial o) := by
  unfold optionalValue
  grind

@[grind ←]
theorem settled_given (o : Operand) : Settled (given o) := by
  unfold given
  grind

@[grind ←]
theorem settled_cellOf (h : Handle) : Settled (cellOf h) := by
  unfold cellOf
  grind

@[grind ←]
theorem settled_destination (o : Operand) : Settled (destination o) := by
  unfold destination
  grind

@[grind ←]
theorem settled_classNamed (name : String) : Settled (classNamed name) := by
  unfold classNamed
  grind

@[grind ←]
theorem settled_operatorNamed (name : String) : Settled (operatorNamed name) := by
  unfold operatorNamed
  grind

/-! ## Fields -/

@[grind ←]
theorem settled_heldObject (field : String) (h : Handle) : Settled (heldObject field h) := by
  unfold heldObject
  grind

@[grind ←]
theorem settled_setDataField (c : Cell) (field : String) (v : Value) :
    Settled (setDataField c field v) := by
  unfold setDataField
  grind

@[grind ←]
theorem settled_replaceFields (v : Value) : Settled (replaceFields v) := by
  unfold replaceFields
  grind

@[grind ←]
theorem settled_setField (h : Handle) (field : String) (v : Handle) :
    Settled (setField h field v) := by
  unfold setField
  grind

/-! ## Options -/

@[grind ←]
theorem settled_fistaOf (h : Handle) : Settled (fistaOf h) := by
  unfold fistaOf
  grind

@[grind ←]
theorem settled_newFista (c : ClassId) (o : FistaOptions) : Settled (newFista c o) := by
  unfold newFista
  grind

@[grind ←]
theorem settled_givenObjects (arguments : List (String × Operand)) :
    Settled (givenObjects arguments) := by
  unfold givenObjects
  grind

@[grind ←]
theorem settled_constructFista (given : Given) : Settled (constructFista given) := by
  unfold constructFista
  grind

@[grind ←]
theorem settled_buildFista (a : FistaArguments) : Settled (buildFista a) := by
  unfold buildFista
  grind

/-! ## Terms -/

@[grind ←]
theorem settled_arrayOf (h : Handle) : Settled (arrayOf h) := by
  unfold arrayOf
  grind

@[grind ←]
theorem settled_denseOperator (h : Handle) : Settled (denseOperator h) := by
  unfold denseOperator
  grind

@[grind ←]
theorem settled_makeOperator (source : OperatorSource) : Settled (makeOperator source) := by
  unfold makeOperator
  grind

@[grind ←]
theorem settled_leastSquaresFields (operator : LinearOperator Value) (observed shape : Handle) :
    Settled (leastSquaresFields operator observed shape) := by
  refine settled_bind (settled_onMemory _) fun y => settled_bind (settled_onMemory _) fun _ =>
    settled_bind (settled_lift _) fun data => ?_
  -- What follows the choice of the sides, and before it the check of the data size.
  extract_lets afterSides afterSize
  have sides_settled (sides : List Value) : Settled (afterSides sides) := by grind
  have size_settled (r : Unit) : Settled (afterSize r) := by
    refine settled_bind settled_world fun w => ?_
    split
    · exact settled_bind (settled_pure _) sides_settled
    · exact settled_bind (settled_lift _) sides_settled
  split
  · exact settled_bind (settled_throw _) size_settled
  · exact size_settled ()

@[grind ←]
theorem settled_makeLeastSquares (source : OperatorSource) (observed : Operand)
    (shape : Option Operand) : Settled (makeLeastSquares source observed shape) := by
  unfold makeLeastSquares
  grind

@[grind ←]
theorem settled_constructFields (owner : ClassId) (given : Given) :
    Settled (constructFields owner given) := by
  unfold constructFields
  grind

@[grind ←]
theorem settled_asArray (h : Handle) : Settled (asArray h) := by
  unfold asArray
  grind

@[grind ←]
theorem settled_fieldsOf (owner : ClassId) (given : Given) : Settled (fieldsOf owner given) := by
  unfold fieldsOf
  grind

@[grind ←]
theorem settled_instantiate (c : ClassId) (given : Given) : Settled (instantiate c given) := by
  unfold instantiate
  grind

@[grind ←]
theorem settled_newOptions (c : ClassId) (a : FistaArguments) : Settled (newOptions c a) := by
  unfold newOptions
  grind

@[grind ←]
theorem settled_rebind (h : Handle) (lipschitz : Value) : Settled (rebind h lipschitz) := by
  unfold rebind
  grind

@[grind ←]
theorem settled_assignOptions (h : Handle) (o : Option Operand) : Settled (assignOptions h o) := by
  unfold assignOptions
  grind

@[grind ←]
theorem settled_makeSmooth (source : SmoothSource) : Settled (makeSmooth source) := by
  unfold makeSmooth
  grind

/-! ## Composites -/

@[grind ←]
theorem settled_composed (h : Handle) : Settled (composed h) := by
  unfold composed
  grind

@[grind ←]
theorem settled_newComposite (diff prox options : Handle) :
    Settled (newComposite diff prox options) := by
  unfold newComposite
  grind

@[grind ←]
theorem settled_combineTerms (first second options : Handle) :
    Settled (combineTerms first second options) := by
  unfold combineTerms
  grind

@[grind ←]
theorem settled_addTerms (first second : Handle) : Settled (addTerms first second) := by
  unfold addTerms
  grind

@[grind ←]
theorem settled_replaceOptions (h options : Handle) : Settled (replaceOptions h options) := by
  unfold replaceOptions
  grind

/-! ## Evaluations and operators -/

@[grind ←]
theorem settled_evaluateValue (kind : Evaluated) (h : Handle) (x : Ref Value) :
    Settled (evaluateValue kind h x) := by
  unfold evaluateValue
  grind

@[grind ←]
theorem settled_evaluate (kind : Evaluated) (o x out : Operand) :
    Settled (evaluate kind o x out) := by
  refine settled_bind (settled_operand o) fun h => settled_bind (settled_operand x) fun xh =>
    settled_bind settled_world fun w => ?_
  cases kind <;> grind

@[grind ←]
theorem settled_gradientQuery (q : GradientQuery) : Settled (gradientQuery q) := by
  unfold gradientQuery
  grind

@[grind ←]
theorem settled_estimateLipschitz (h : Handle) (start : List Binary) (count tolerance : Value) :
    Settled (estimateLipschitz h start count tolerance) := by
  unfold estimateLipschitz
  grind

@[grind ←]
theorem settled_resulting (r : Result) : Settled (resulting r) := by
  unfold resulting
  grind

@[grind ←]
theorem settled_applyOperator (operator : Operator) (function point : Handle) (step : Option Value)
    (options out : Handle) :
    Settled (applyOperator operator function point step options out) := by
  unfold applyOperator
  grind

@[grind ←]
theorem settled_applyMethod (operator : Operator) (function point : Handle) (step : Option Value)
    (options out : Handle) :
    Settled (applyMethod operator function point step options out) := by
  unfold applyMethod
  grind

/-! ## Requests -/

/-- The requests that define a class, make a registration or take one back. -/
def Step.isDeclaration : Step → Bool
  | .defineClass .. | .register .. | .unregister .. => true
  | _ => false

theorem settled_perform {step : Step} (other : step.isDeclaration = false) :
    Settled (perform step) := by
  cases step with
  | defineClass | register | unregister => cases other
  | _ => unfold perform; grind

end ProxGrad.Session
