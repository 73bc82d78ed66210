import ProxGrad.Proofs.Dispatch.Ancestry
import ProxGrad.Proofs.Options.Growth

/-!
# Rebinding

Options of a world are rebound to another Lipschitz constant by a copy of their class that shares
every other field, the history included. Options that another constructor has made cannot be copied.
-/

set_option autoImplicit false

namespace ProxGrad.Session

open Act FistaOptions

/-! ## The options of a world -/

/-- An instance that was made as options in a world: well-formed, of a class of options, and without
further fields. -/
structure World.IsOptions (w : World) (i : Instance) (o : FistaOptions) : Prop where
  wellFormed : o.WellFormed w.memory
  subclass : w.classes.isSubclass i.cls .fistaArgmin = true
  fields : i.fields = []

/-- A world of classes that were defined by name, in which all options are as they were made. -/
structure World.OptionsSound (w : World) : Prop where
  built : w.classes.Built
  made : ∀ (k : Nat) i o, w.objects[k]? = some i → i.body = .fista o → w.IsOptions i o

variable {w w' : World} {h : Handle} {i : Instance} {o : FistaOptions} {L : Value}

theorem World.optionsSound_initial : ({} : World).OptionsSound := by
  refine ⟨.initial, fun k i o held body => ?_⟩
  have single : i = { cls := .exactArgmin } := by
    cases k with
    | zero => exact (Option.some.inj held).symm
    | succ k => cases held
  cases single
  cases body

theorem World.IsOptions.later (made : w.IsOptions i o) (classes : w'.classes = w.classes)
    (arrays : w.memory.KeepsArrays w'.memory) : w'.IsOptions i o where
  wellFormed := made.wellFormed.later arrays
  subclass := classes ▸ made.subclass
  fields := made.fields

theorem World.OptionsSound.grows (sound : w.OptionsSound) (grows : w.Grows w') :
    w'.OptionsSound := by
  refine ⟨grows.classes ▸ sound.built, fun k i o held body => ?_⟩
  cases before : w.objects[k]? with
  | none => exact absurd body (grows.fresh k i o before held)
  | some i' =>
    cases (grows.kept k i' before).symm.trans held
    exact (sound.made k i o before body).later grows.classes grows.arrays

def World.pushed (w : World) (i : Instance) : World :=
  { w with objects := w.objects.push i }

theorem World.objects_pushed (w : World) (i : Instance) (k : Nat) :
    (w.pushed i).objects[k]? = if k = w.objects.size then some i else w.objects[k]? :=
  Array.getElem?_push

theorem World.OptionsSound.pushed (sound : w.OptionsSound) {cls : ClassId}
    (wellFormed : o.WellFormed w.memory) (subclass : w.classes.isSubclass cls .fistaArgmin = true) :
    (w.pushed { cls, body := .fista o }).OptionsSound := by
  refine ⟨sound.built, fun k i' o' held body => ?_⟩
  rw [World.objects_pushed] at held
  split at held
  · cases held
    cases body
    exact ⟨wellFormed, subclass, rfl⟩
  · exact (sound.made k i' o' held body).later rfl (.refl w.memory)

theorem World.OptionsSound.of_instance? (sound : w.OptionsSound) (held : w.instance? h = some i)
    (body : i.body = .fista o) : w.IsOptions i o := by
  cases h with
  | data c => cases held
  | object k => exact sound.made k i o held body

theorem World.fistaOptions?_of_body (held : w.instance? h = some i) (body : i.body = .fista o) :
    w.fistaOptions? h = some o := by
  obtain ⟨cls, _, fields⟩ := i
  cases body
  rw [World.fistaOptions?, held]

/-- Options are those that an instance carries. One that was made in another way has the initial
ones. -/
theorem World.fistaOptions?_eq_some (held : w.fistaOptions? h = some o) :
    ∃ i, w.instance? h = some i ∧
      (i.body = .fista o ∨
        (∀ o', i.body ≠ .fista o') ∧ w.classes.isSubclass i.cls .fistaArgmin = true ∧
          o = defaultFista) := by
  unfold World.fistaOptions? at held
  split at held
  case h_1 found =>
    cases held
    exact ⟨_, found, .inl rfl⟩
  case h_2 i other found =>
    split at held
    case isTrue subclass =>
      cases held
      refine ⟨i, found, .inr ⟨fun o' body => ?_, subclass, rfl⟩⟩
      obtain ⟨cls, _, fields⟩ := i
      cases body
      exact other cls o' fields rfl
    case isFalse => cases held
  case h_3 => cases held

theorem wellFormed_defaultFista (m : Memory Value) : defaultFista.WellFormed m where
  lipschitz := .inl rfl
  resetCounter := .inl rfl
  iterations := .inl rfl
  history _ chosen := by cases chosen

theorem World.OptionsSound.wellFormed (sound : w.OptionsSound)
    (held : w.fistaOptions? h = some o) : o.WellFormed w.memory := by
  obtain ⟨i, found, body | ⟨-, -, rfl⟩⟩ := World.fistaOptions?_eq_some held
  · exact (sound.of_instance? found body).wellFormed
  · exact wellFormed_defaultFista w.memory

/-! ## One constant -/

theorem outcome_fistaOf (h : Handle) (w : World) :
    (fistaOf h).outcome w = ((w.fistaOptions? h).elim (.error .noField) .ok, w) := by
  unfold fistaOf
  rw [outcome_bind, outcome_world]
  cases held : w.fistaOptions? h <;> simp [held]

/-- The method that rebinds is found for all instances of a class of options, if no field hides
it. -/
theorem method_withLipschitz_eq (built : w.classes.Built) (held : w.instance? h = some i)
    (subclass : w.classes.isSubclass i.cls .fistaArgmin = true) :
    w.method h .withLipschitz = .error .operandTypes ∧ i.fields ≠ [] ∨
      ∃ owner, w.method h .withLipschitz = .ok owner := by
  have found := built.isSome_owner? (m := .withLipschitz) subclass (by decide) (by decide)
  obtain ⟨owner, found⟩ := Option.isSome_iff_exists.mp found
  have owned : w.owner? h .withLipschitz = some owner := by
    rw [World.owner?, held]
    exact found
  unfold World.method
  split
  case isTrue hidden =>
    refine .inl ⟨rfl, fun none => ?_⟩
    simp [Method.name?, World.field?, held, none] at hidden
  case isFalse =>
    rw [owned]
    exact .inr ⟨owner, rfl⟩

theorem World.OptionsSound.exists_method_eq_ok (sound : w.OptionsSound)
    (held : w.instance? h = some i) (body : i.body = .fista o) :
    ∃ owner, w.method h .withLipschitz = .ok owner := by
  obtain ⟨-, subclass, fields⟩ := sound.of_instance? held body
  exact (method_withLipschitz_eq sound.built held subclass).resolve_left fun hidden =>
    hidden.2 fields

theorem withLipschitz_eq_ok (accepted : checkLipschitz L = .ok ()) (o : FistaOptions) :
    o.withLipschitz L = .ok { o with lipschitz := L } := by
  rw [withLipschitz, accepted]
  rfl

theorem withLipschitz_eq_error {fault : Fault} (refused : checkLipschitz L = .error fault)
    (o : FistaOptions) : o.withLipschitz L = .error fault := by
  rw [withLipschitz, refused]
  rfl

theorem shown_data {c : Cell} {v : Value} (held : w.memory.content c = some v) :
    w.shown (.data c) = v := by
  have found : w.content? (.data c) = some v := held
  rw [World.shown, found]

/-- A constant that is accepted gives a new instance, which differs from the given one in nothing
else. -/
theorem outcome_rebind (sound : w.OptionsSound) (held : w.instance? h = some i)
    (body : i.body = .fista o) (accepted : checkLipschitz L = .ok ()) :
    ∃ answer, (rebind h L).outcome w = (.ok (answer, some (.object w.objects.size)),
      w.pushed { i with body := .fista { o with lipschitz := L } }) := by
  obtain ⟨wellFormed, -, fields⟩ := sound.of_instance? held body
  obtain ⟨owner, method⟩ := sound.exists_method_eq_ok held body
  have bound := withLipschitz_eq_ok accepted o
  have copied := (wellFormed.rebind bound).copied_eq_ok accepted
    (fun c => w.shown (.data c)) fun c v => shown_data
  obtain ⟨cls, _, _⟩ := i
  cases body
  cases fields
  unfold rebind
  simp only [outcome_bind, outcome_world, outcome_fistaOf, outcome_lift,
    World.fistaOptions?_of_body held rfl, Option.elim_some, method, bound, held, copied]
  exact ⟨_, rfl⟩

theorem outcome_rebind_of_error (sound : w.OptionsSound) (held : w.instance? h = some i)
    (body : i.body = .fista o) {fault : Fault} (refused : checkLipschitz L = .error fault) :
    (rebind h L).outcome w = (.error fault, w) := by
  obtain ⟨owner, method⟩ := sound.exists_method_eq_ok held body
  unfold rebind
  simp only [outcome_bind, outcome_world, outcome_fistaOf, outcome_lift,
    World.fistaOptions?_of_body held body, Option.elim_some, method,
    withLipschitz_eq_error refused o]

/-- What was not made as options is never rebound. If its class is one of options, a constant that
is accepted is not among the arguments that its constructor takes. -/
theorem exists_rebind_eq_error (built : w.classes.Built)
    (other : ∀ i o, w.instance? h = some i → i.body ≠ .fista o) (L : Value) :
    ∃ fault, (rebind h L).outcome w = (.error fault, w) ∧
      ((w.fistaOptions? h).isSome → checkLipschitz L = .ok () → fault = .operandTypes) := by
  unfold rebind
  simp only [outcome_bind, outcome_world, outcome_fistaOf, outcome_lift]
  cases options : w.fistaOptions? h with
  | none => exact ⟨_, rfl, fun some => by cases some⟩
  | some o =>
    obtain ⟨i, held, body | ⟨-, subclass, -⟩⟩ := World.fistaOptions?_eq_some options
    · exact absurd body (other i o held)
    -- A field may hide the method, as nothing keeps an instance of another constructor from one.
    obtain ⟨hidden, -⟩ | ⟨owner, method⟩ := method_withLipschitz_eq built held subclass
    · rw [hidden]
      exact ⟨_, rfl, fun _ _ => rfl⟩
    · simp only [Option.elim_some, method, held]
      cases checked : checkLipschitz L with
      | error fault =>
        rw [withLipschitz_eq_error checked]
        exact ⟨fault, rfl, fun _ impossible => by cases impossible⟩
      | ok _ =>
        rw [withLipschitz_eq_ok checked]
        obtain ⟨cls, body, fields⟩ := i
        cases body with
        | fista o' => exact absurd rfl (other _ o' held)
        | _ => exact ⟨.operandTypes, rfl, fun _ _ => rfl⟩

/-! ## Chains -/

/-- Rebinds to one constant after the other, each time the options that came last. -/
def rebindEach (h : Handle) : List Value → Act Handle
  | [] => pure h
  | lipschitz :: rest => do
    match (← rebind h lipschitz).2 with
    | some bound => rebindEach bound rest
    | none => throw .noField

/-- A world with further instances, in which all else is as it was. -/
structure World.Extends (w w' : World) : Prop where
  memory : w'.memory = w.memory
  classes : w'.classes = w.classes
  kept : ∀ h i, w.instance? h = some i → w'.instance? h = some i

namespace World.Extends

variable {w'' : World}

theorem refl (w : World) : w.Extends w := ⟨rfl, rfl, fun _ _ held => held⟩

theorem trans (first : w.Extends w') (second : w'.Extends w'') : w.Extends w'' where
  memory := second.memory.trans first.memory
  classes := second.classes.trans first.classes
  kept h i held := second.kept h i (first.kept h i held)

theorem pushed (w : World) (i : Instance) : w.Extends (w.pushed i) where
  memory := rfl
  classes := rfl
  kept h j held := by
    cases h with
    | data c => cases held
    | object k =>
      obtain ⟨bound, -⟩ := Array.getElem?_eq_some_iff.mp held
      exact (World.objects_pushed w i k).trans ((if_neg (Nat.ne_of_lt bound)).trans held)

theorem instance?_eq_none (extended : w.Extends w') (fresh : w'.instance? h = none) :
    w.instance? h = none := by
  cases held : w.instance? h with
  | none => rfl
  | some i => cases (extended.kept h i held).symm.trans fresh

end World.Extends

theorem instance?_pushed (w : World) (i : Instance) :
    (w.pushed i).instance? (.object w.objects.size) = some i :=
  (World.objects_pushed w i _).trans (if_pos rfl)

/-- Of several constants the last one is kept. All options of a chain share the other fields, and
none that was there before is changed. -/
theorem exists_rebindEach_eq_ok (sound : w.OptionsSound) (held : w.instance? h = some i)
    (body : i.body = .fista o) {Ls : List Value} (accepted : ∀ L ∈ Ls, checkLipschitz L = .ok ()) :
    ∃ h' w', (rebindEach h Ls).outcome w = (.ok h', w') ∧
      w'.instance? h' =
        some { i with body := .fista { o with lipschitz := Ls.getLastD o.lipschitz } } ∧
      (Ls ≠ [] → w.instance? h' = none) ∧ w.Extends w' := by
  induction Ls generalizing w h i o with
  | nil =>
    refine ⟨h, w, rfl, ?_, fun impossible => absurd rfl impossible, .refl w⟩
    cases i
    cases body
    exact held
  | cons L rest ih =>
    obtain ⟨answer, rebound⟩ :=
      outcome_rebind sound held body (accepted L List.mem_cons_self)
    obtain ⟨wellFormed, subclass, fields⟩ := sound.of_instance? held body
    obtain ⟨cls, _, _⟩ := i
    cases body
    cases fields
    have bound := withLipschitz_eq_ok (accepted L List.mem_cons_self) o
    -- The rest of the chain starts at the copy, in the world that it was added to.
    have sound' := sound.pushed (wellFormed.rebind bound) subclass
    obtain ⟨h', w', ran, last, fresh, extended⟩ :=
      ih sound' (instance?_pushed w _) rfl fun L' member =>
        accepted L' (List.mem_cons_of_mem L member)
    refine ⟨h', w', ?_, ?_, fun _ => ?_, (World.Extends.pushed w _).trans extended⟩
    · rw [rebindEach, outcome_bind, rebound]
      exact ran
    · rw [last, List.getLastD_cons]
    · cases rest with
      | nil =>
        cases ran
        exact Array.getElem?_eq_none (Nat.le_refl _)
      | cons L' rest => exact (World.Extends.pushed w _).instance?_eq_none (fresh nofun)

/-- What is read back of the history that options carry. -/
def World.recorded? (w : World) (h : Handle) : Option Value :=
  ((w.fistaOptions? h).bind (·.history)).bind w.memory.content

theorem recorded?_of_body (memory : Memory Value) (held : w.instance? h = some i)
    (body : i.body = .fista o) :
    World.recorded? { w with memory } h = o.history.bind memory.content := by
  have options : World.fistaOptions? { w with memory } h = some o :=
    World.fistaOptions?_of_body (w := { w with memory }) held body
  rw [World.recorded?, options, Option.bind_some]

/-- What rebinding does with options of a world. A constant that is not accepted changes nothing. A
chain of accepted ones ends with a new instance of the same class, whose constant is the last and
whose other fields are those of the first; all that was there before is kept, and whatever is
recorded later is read back through both. -/
structure World.Rebinds (w : World) (h : Handle) (i : Instance) (o : FistaOptions) : Prop where
  refused (L : Value) (fault : Fault) : checkLipschitz L = .error fault →
    (rebind h L).outcome w = (.error fault, w)
  chained (Ls : List Value) : (∀ L ∈ Ls, checkLipschitz L = .ok ()) →
    ∃ h' w', (rebindEach h Ls).outcome w = (.ok h', w') ∧
      w'.instance? h' =
        some { i with body := .fista { o with lipschitz := Ls.getLastD o.lipschitz } } ∧
      (Ls ≠ [] → w.instance? h' = none) ∧ w.Extends w' ∧
      ∀ memory, World.recorded? { w' with memory } h' = World.recorded? { w' with memory } h

theorem World.OptionsSound.rebinds (sound : w.OptionsSound) (held : w.instance? h = some i)
    (body : i.body = .fista o) : w.Rebinds h i o where
  refused _ _ := outcome_rebind_of_error sound held body
  chained Ls accepted := by
    obtain ⟨h', w', ran, last, fresh, extended⟩ := exists_rebindEach_eq_ok sound held body accepted
    refine ⟨h', w', ran, last, fresh, extended, fun memory => ?_⟩
    have first := recorded?_of_body memory (extended.kept h i held) body
    rw [recorded?_of_body memory last rfl, first]

end ProxGrad.Session
