import ProxGrad.Proofs.Fista.Observation
import ProxGrad.Terms.Proximal
import ProxGrad.Value.Arithmetic

/-!
# Terms with a closed form under observation

A term given by one function for value and gradient treats both evaluations alike, and terms with a
closed form only read their point and store into their destination. So an observer finds nothing
unexpected in them.
-/

set_option autoImplicit false

namespace ProxGrad

variable {V : Type} {own : Likeness V} {buffer : Cell}

theorem Alike.discard {α β : Type} {R : α → β → Prop} {m₁ m₂ : Memory V} {a : Action V α}
    {b : Action V β} (alike : Alike own buffer R (a.outcome m₁) (b.outcome m₂)) :
    Alike own buffer (fun _ _ => True) ((a >>= fun _ => Pure.pure ()).outcome m₁)
      (b.outcome m₂) := by
  rw [Action.outcome_bind]
  cases left : a.outcome m₁ with
  | mk result₁ m₁' =>
      cases right : b.outcome m₂ with
      | mk result₂ m₂' =>
          rw [left, right] at alike
          obtain ⟨same, agree⟩ := alike
          cases same with
          | ok _ => exact ⟨.ok trivial, agree⟩
          | error fault => exact ⟨.error fault, agree⟩

variable [Calculus V]

/-- A term of one function is observable if the function is. -/
theorem SmoothTerm.observable_ofValueAndGradient {both : Ref V → Cell → Action V V} {f : V → V}
    (alike : ∀ {m₁ m₂ : Memory V} {x out : Cell}, m₁.Agree own buffer m₂ → x ∉ own.cells →
      x ≠ buffer → out ∉ own.cells → out ≠ buffer →
      Alike own buffer (fun a b => a = b) ((both (.cell x) out).outcome m₁)
        ((both (.cell x) out).outcome m₂))
    (value : ∀ {m₁ m m' : Memory V} {x out : Cell} {p v : V}, m₁.Agree own buffer m →
      m.content x = some p → (both (.cell x) out).outcome m = (.ok v, m') → v = f p)
    (sparing : ∀ {x out : Cell}, out ≠ buffer → (both (.cell x) out).Sparing buffer) :
    (SmoothTerm.ofValueAndGradient both).Observable own buffer f Evaluation.unheard where
  alike := by
    intro m₁ m₂ x out p agree _ x_foreign x_visible out_foreign out_visible _
    exact (alike agree x_foreign x_visible out_foreign out_visible).discard
  value := by
    intro m₁ m m' x out p v agree _ held ran
    exact value agree held ran
  gradient := by
    intro m x out p out_visible _
    exact Action.Sparing.bind (sparing out_visible) (fun _ => .pure ()) m
  valueAndGradient := by
    intro m x out p out_visible _
    exact sparing out_visible m

namespace Terms

def squaredDistanceAt (y p : V) : Except Fault V := do
  let r ← Calculus.sub p y
  Calculus.mul oneHalf (← Calculus.inner r r)

/-- Half the squared distance from a point is observable, if the run leaves that point alone. -/
theorem squaredDistance_observable {data : Ref V} {y : V} {f : V → V}
    (seen : ∀ {m₁ m₂ : Memory V}, m₁.Agree own buffer m₂ →
      (Action.readRef data).outcome m₁ = (.ok y, m₁) ∧
        (Action.readRef data).outcome m₂ = (.ok y, m₂))
    (values : ∀ p v, squaredDistanceAt y p = .ok v → v = f p) :
    (squaredDistance data).Observable own buffer f Evaluation.unheard := by
  refine SmoothTerm.observable_ofValueAndGradient ?_ ?_ ?_
  · intro m₁ m₂ x out agree x_foreign x_visible out_foreign out_visible
    refine .bind (.read agree x_foreign x_visible) ?_
    rintro p _ m₁ m₂ - - rfl agree
    refine .bind (.of_ok (seen agree).1 (seen agree).2 agree) ?_
    rintro y _ m₁ m₂ - - rfl agree
    refine .bind (.lift agree _) ?_
    rintro r _ m₁ m₂ - - rfl agree
    refine .bind (.store agree out_foreign out_visible r) ?_
    rintro - - m₁ m₂ - - - agree
    exact .lift agree _
  · intro m₁ m m' x out p v agree held ran
    have afterRead := (Action.outcome_bind_of_ok (Action.outcome_readRef_cell held)).symm.trans ran
    have afterData := (Action.outcome_bind_of_ok (seen agree).2).symm.trans afterRead
    obtain ⟨r, _, subtracted, afterSub⟩ := Action.outcome_bind_eq_ok afterData
    obtain ⟨difference, rfl⟩ := Action.outcome_lift_eq_ok subtracted
    obtain ⟨_, _, _, afterStore⟩ := Action.outcome_bind_eq_ok afterSub
    obtain ⟨product, _⟩ := Action.outcome_lift_eq_ok afterStore
    refine values p v ?_
    rw [squaredDistanceAt, difference]
    exact product
  · intro x out out_visible
    exact .bind (.read x) fun p => .bind (.readRef data) fun y => .bind (.lift _) fun r =>
      .bind (.store out_visible.symm r) fun _ => .lift _

theorem nonNegative_observable {term : ProximalTerm V}
    (projects : term.prox = fun y _ out => proxNonNegative y out) :
    term.Observable own buffer where
  alike := by
    intro m₁ m₂ out y step agree out_foreign out_visible
    rw [projects]
    refine .bind (.pure agree y) ?_
    rintro y _ m₁ m₂ - - rfl agree
    refine .bind (.lift agree _) ?_
    rintro y _ m₁ m₂ - - rfl agree
    refine .bind (.lift agree _) ?_
    rintro z _ m₁ m₂ - - rfl agree
    exact .store agree out_foreign out_visible z
  sparing := by
    intro out y step out_visible
    rw [projects]
    exact .bind (.pure y) fun y => .bind (.lift _) fun y => .bind (.lift _) fun z =>
      .store out_visible.symm z

end Terms

/-! ## Rounded values -/

theorem Value.mul_real (a b : Binary) :
    Calculus.mul (Value.real a) (Value.real b) = .ok (.real (Binary.mul .double a b)) := by
  change Value.arithmetic .mul _ _ = _
  simp [Value.arithmetic, Value.isRepetition, Value.hasEntries, Value.toEntry, Value.ofEntry,
    Scalar.applyLiteral, Scalar.applyPlain, Scalar.numeric?, Scalar.applyNumerics,
    Scalar.Numeric.toReal, Scalar.applyReals, Scalar.applyReal, bind, Except.bind, pure,
    Except.pure]

theorem Value.inner_eq_ok {a b v : Value} (given : Calculus.inner a b = .ok v) :
    ∃ r, v = .real r := by
  obtain ⟨x, _, given⟩ := exists_of_bind_eq_ok given
  obtain ⟨y, _, given⟩ := exists_of_bind_eq_ok given
  obtain ⟨product, _, given⟩ := exists_of_bind_eq_ok given
  obtain ⟨part, _, given⟩ := exists_of_bind_eq_ok given
  obtain ⟨r, _, given⟩ := exists_of_bind_eq_ok given
  cases given
  exact ⟨r, rfl⟩

namespace Terms

theorem squaredDistanceAt_eq_ok {y p v : Value} (given : squaredDistanceAt y p = .ok v) :
    ∃ r, v = .real r := by
  obtain ⟨difference, _, given⟩ := exists_of_bind_eq_ok given
  obtain ⟨product, computed, given⟩ := exists_of_bind_eq_ok given
  obtain ⟨r, rfl⟩ := Value.inner_eq_ok computed
  cases (Value.mul_real _ r).symm.trans given
  exact ⟨_, rfl⟩

/-- Half the squared distance from a fixed point where there is one, and zero elsewhere. -/
def squaredDistanceFrom (y p : Value) : Value :=
  match squaredDistanceAt y p with
  | .ok v => v
  | .error _ => .real .zero

theorem eq_squaredDistanceFrom {y p v : Value} (given : squaredDistanceAt y p = .ok v) :
    v = squaredDistanceFrom y p := by
  rw [squaredDistanceFrom, given]

theorem squaredDistanceFrom_eq_real (y p : Value) : ∃ r, squaredDistanceFrom y p = .real r := by
  rw [squaredDistanceFrom]
  cases given : squaredDistanceAt y p with
  | error fault => exact ⟨_, rfl⟩
  | ok v => exact squaredDistanceAt_eq_ok given

end Terms

end ProxGrad
