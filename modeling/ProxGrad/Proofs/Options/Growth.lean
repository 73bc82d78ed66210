import ProxGrad.Proofs.Dispatch.Settled
import ProxGrad.Proofs.Options.WellFormed

/-!
# Worlds that grow

What the parts of a request do to a world before options are made: they add objects, none of them
options of the accelerated method, and keep the classes, the objects that there are, and the types
and shapes of all arrays.
-/

set_option autoImplicit false

namespace ProxGrad

namespace GradientCheck

theorem still_accept {V : Type} [Calculus V] (name : String) (x : Ref V) :
    (accept name x).Still := by
  refine .bind (Action.still_readRef x) fun v => .bind (Action.still_lift _) fun accepted => ?_
  cases accepted <;> exact Action.still_pure _

end GradientCheck

namespace Session

/-- A world that has grown from another by objects that are no options. -/
structure World.Grows (w w' : World) : Prop where
  classes : w'.classes = w.classes
  kept : ∀ (k : Nat) i, w.objects[k]? = some i → w'.objects[k]? = some i
  fresh : ∀ (k : Nat) i o, w.objects[k]? = none → w'.objects[k]? = some i → i.body ≠ .fista o
  arrays : w.memory.KeepsArrays w'.memory

namespace World.Grows

variable {w w' w'' : World}

theorem refl (w : World) : w.Grows w where
  classes := rfl
  kept _ _ held := held
  fresh _ _ _ missing held := by cases missing.symm.trans held
  arrays := .refl w.memory

theorem trans (first : w.Grows w') (second : w'.Grows w'') : w.Grows w'' where
  classes := second.classes.trans first.classes
  kept k i held := second.kept k i (first.kept k i held)
  fresh k i o missing held := by
    cases between : w'.objects[k]? with
    | none => exact second.fresh k i o between held
    | some i' =>
      cases (second.kept k i' between).symm.trans held
      exact first.fresh k i o missing between
  arrays := first.arrays.trans second.arrays

theorem of_memory {m : Memory Value} (kept : w.memory.KeepsArrays m) :
    w.Grows { w with memory := m } where
  classes := rfl
  kept _ _ held := held
  fresh _ _ _ missing held := by cases missing.symm.trans held
  arrays := kept

end World.Grows

variable {α β : Type}

namespace Act

/-- An action after which the world has grown, also if it fails. -/
def Growing (a : Act α) : Prop :=
  ∀ w : World, w.Grows (a.outcome w).2

end Act

open Act

/-! ## Rules -/

@[grind ←]
theorem growing_pure (x : α) : Growing (pure x : Act α) := fun w => .refl w

@[grind ←]
theorem growing_throw (fault : Fault) : Growing (throw fault : Act α) := fun w => .refl w

@[grind ←]
theorem growing_bind {a : Act α} {f : α → Act β} (first : Growing a) (next : ∀ x, Growing (f x)) :
    Growing (a >>= f) := by
  intro w
  have here := first w
  refine leaves_bind here fun x w' ran => ?_
  rw [ran] at here
  exact here.trans (next x w')

@[grind ←]
theorem growing_mapM {f : α → Act β} (each : ∀ x, Growing (f x)) (l : List α) :
    Growing (l.mapM f) := by
  induction l with
  | nil => exact growing_pure []
  | cons x l ih =>
    rw [List.mapM_cons]
    exact growing_bind (each x) fun _ => growing_bind ih fun _ => growing_pure _

@[grind ←]
theorem growing_world : Growing world := fun w => .refl w

@[grind ←]
theorem growing_lift (r : Except Fault α) : Growing (Act.lift r) := fun w => .refl w

theorem growing_onMemory {f : World → Action Value α} (lasting : ∀ w, (f w).Lasting) :
    Growing (onMemory f) :=
  fun w => .of_memory (lasting w w.memory)

theorem growing_newInstance {i : Instance} (plain : ∀ o, i.body ≠ .fista o) :
    Growing (newInstance i) := by
  intro w
  have pushed (k : Nat) : ((newInstance i).outcome w).2.objects[k]? =
      if k = w.objects.size then some i else w.objects[k]? :=
    Array.getElem?_push
  refine ⟨rfl, fun k i' held => ?_, fun k i' o missing held => ?_, .refl w.memory⟩
  · obtain ⟨bound, -⟩ := Array.getElem?_eq_some_iff.mp held
    rw [pushed, if_neg (Nat.ne_of_lt bound), held]
  · rw [pushed] at held
    split at held
    · cases held
      exact plain o
    · cases missing.symm.trans held

/-! ## Parts of requests -/

@[grind ←]
theorem growing_newData (v : Value) : Growing (newData v) :=
  growing_bind (growing_onMemory fun _ => Action.lasting_allocate v) fun _ => growing_pure _

@[grind ←]
theorem growing_operand (o : Operand) : Growing (operand o) := by
  unfold operand
  grind

@[grind ←]
theorem growing_givenObjects (arguments : List (String × Operand)) :
    Growing (givenObjects arguments) := by
  unfold givenObjects
  grind

@[grind ←]
theorem growing_cellOf (h : Handle) : Growing (cellOf h) := by
  cases h with
  | data c => exact growing_pure c
  | object k => exact growing_onMemory fun w => Action.lasting_allocate _

@[grind ←]
theorem growing_constructFista (given : Given) : Growing (constructFista given) := by
  unfold constructFista
  grind

@[grind ←]
theorem growing_arrayOf (h : Handle) : Growing (arrayOf h) := by
  unfold arrayOf
  grind

@[grind ←]
theorem growing_denseOperator (h : Handle) : Growing (denseOperator h) := by
  unfold denseOperator
  grind

@[grind ←]
theorem growing_leastSquaresFields (operator : LinearOperator Value) (observed shape : Handle) :
    Growing (leastSquaresFields operator observed shape) := by
  refine growing_bind (growing_onMemory fun _ => .of_still (GradientCheck.still_accept _ _))
    fun y => growing_bind (growing_onMemory fun _ => .of_still (Action.still_readRef y)) fun _ =>
    growing_bind (growing_lift _) fun data => ?_
  -- What follows the choice of the sides, and before it the check of the data size.
  extract_lets afterSides afterSize
  have made := growing_newInstance (i := { cls := .objectClass, body := .operator operator }) nofun
  have sides_growing (sides : List Value) : Growing (afterSides sides) := by grind
  have size_growing (r : Unit) : Growing (afterSize r) := by
    refine growing_bind growing_world fun w => ?_
    split
    · exact growing_bind (growing_pure _) sides_growing
    · exact growing_bind (growing_lift _) sides_growing
  split
  · exact growing_bind (growing_throw _) size_growing
  · exact size_growing ()

@[grind ←]
theorem growing_constructFields (owner : ClassId) (given : Given) :
    Growing (constructFields owner given) := by
  unfold constructFields
  grind

@[grind ←]
theorem growing_asArray (h : Handle) : Growing (asArray h) := by
  unfold asArray
  grind

@[grind ←]
theorem growing_fieldsOf (owner : ClassId) (given : Given) : Growing (fieldsOf owner given) := by
  unfold fieldsOf
  grind

end Session

end ProxGrad
