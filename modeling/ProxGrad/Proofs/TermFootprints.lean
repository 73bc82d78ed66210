import ProxGrad.Proofs.Counting
import ProxGrad.Proofs.Fista.Calls
import ProxGrad.Proofs.Lasting

/-!
# Footprints of terms

Terms with a closed form write to their destination only and record nothing. A counted term writes
to its counts besides; it records its calls, and so does a proximal term that announces them. None
of them changes the type or the shape of an array.
-/

set_option autoImplicit false

namespace ProxGrad

open ProxGrad.Action

variable {V : Type} {cells : Set Cell}

/-! ## Terms with a closed form -/

namespace Terms

variable [Calculus V]

theorem squaredDistance_within (y : Ref V) (x : Ref V) {out : Cell} (member : out ∈ cells) :
    ((squaredDistance y).valueAndGradient x out).Within cells :=
  .bind (.of_still (still_readRef x)) fun _ => .bind (.of_still (still_readRef y)) fun _ =>
    .bind (.of_still (still_lift _)) fun _ => .bind (.store member _) fun _ =>
      .of_still (still_lift _)

theorem squaredDistance_silent (y : Ref V) (x : Ref V) (out : Cell) :
    ((squaredDistance y).valueAndGradient x out).Silent :=
  .bind (.of_still (still_readRef x)) fun _ => .bind (.of_still (still_readRef y)) fun _ =>
    .bind (.of_still (still_lift _)) fun _ => .bind (.store out _) fun _ =>
      .of_still (still_lift _)

theorem squaredDistance_lasting (y x : Ref Value) (out : Cell) :
    ((squaredDistance y).valueAndGradient x out).Lasting :=
  .bind (.of_still (still_readRef x)) fun _ => .bind (.of_still (still_readRef y)) fun _ =>
    .bind (.of_still (still_lift _)) fun _ => .bind (lasting_store out _) fun _ =>
      .of_still (still_lift _)

theorem proxNonNegative_within (y : Ref V) {out : Cell} (member : out ∈ cells) :
    (proxNonNegative y out).Within cells :=
  .bind (.of_still (still_readRef y)) fun _ => .bind (.of_still (still_lift _)) fun _ =>
    .bind (.of_still (still_lift _)) fun _ => .store member _

theorem proxNonNegative_silent (y : Ref V) (out : Cell) :
    (proxNonNegative y out).Silent :=
  .bind (.of_still (still_readRef y)) fun _ => .bind (.of_still (still_lift _)) fun _ =>
    .bind (.of_still (still_lift _)) fun _ => .store out _

theorem proxL1_silent (weight y : Ref V) (step : V) (out : Cell) :
    (proxL1 weight y step out).Silent :=
  .bind (.of_still (still_readRef y)) fun _ => .bind (.of_still (still_lift _)) fun _ =>
    .bind (.of_still (still_readRef weight)) fun _ => .bind (.of_still (still_lift _)) fun _ =>
      .store out _

theorem proxNonNegative_lasting (y : Ref Value) (out : Cell) :
    (proxNonNegative y out : Action Value Unit).Lasting :=
  .bind (.of_still (still_readRef y)) fun _ => .bind (.of_still (still_lift _)) fun _ =>
    .bind (.of_still (still_lift _)) fun _ => lasting_store out _

end Terms

/-! ## Calls that are counted or announced -/

/-- A term that announces its calls under a name. -/
def ProximalTerm.announcing (name : String) (term : ProximalTerm V) : ProximalTerm V where
  prox y step out := do
    Action.record (.prox name step)
    term.prox y step out
  value := term.value

theorem ProximalTerm.announcing_within (name : String) {term : ProximalTerm V} {y : Ref V}
    {step : V} {out : Cell} (within : (term.prox y step out).Within cells) :
    ((term.announcing name).prox y step out).Within cells :=
  .bind (.record _) fun _ => within

theorem ProximalTerm.announcing_announces (name : String) {term : ProximalTerm V} {y : Ref V}
    {step : V} {out : Cell} (silent : (term.prox y step out).Silent) :
    ((term.announcing name).prox y step out).Announces [.prox] :=
  .bind_quiet (.record rfl) fun _ => .of_silent silent

theorem ProximalTerm.announcing_lasting (name : String) {term : ProximalTerm Value} {y : Ref Value}
    {step : Value} {out : Cell} (lasting : (term.prox y step out).Lasting) :
    ((term.announcing name).prox y step out).Lasting :=
  .bind (lasting_record _) fun _ => lasting

theorem still_readCount (c : Cell) : (readCount c).Still := by
  refine .bind (still_read c) fun v => ?_
  split
  · exact still_pure _
  · exact still_throw _

theorem countCall_within (limit : Nat) {mine : Cell} (member : mine ∈ cells) (other : Cell) :
    (countCall limit mine other).Within cells := by
  refine .bind (.of_still (still_readCount mine)) fun n =>
    .bind (.of_still (still_readCount other)) fun k => ?_
  split
  · exact .bind (.of_still (still_throw _)) fun _ => .write member _
  · exact .write member _

theorem countCall_silent (limit : Nat) (mine other : Cell) :
    (countCall limit mine other).Silent := by
  refine .bind (.of_still (still_readCount mine)) fun n =>
    .bind (.of_still (still_readCount other)) fun k => ?_
  split
  · exact .bind (.of_still (still_throw _)) fun _ => .write mine _
  · exact .write mine _

theorem outcome_readCount_eq_ok {m m' : Memory Value} {c : Cell} {n : Nat}
    (ran : (readCount c).outcome m = (.ok n, m')) : m.content c = some (.count n) ∧ m' = m := by
  obtain ⟨v, _, seen, taken⟩ := outcome_bind_eq_ok ran
  obtain ⟨held, rfl⟩ := outcome_read_eq_ok seen
  split at taken
  · cases taken
    exact ⟨held, rfl⟩
  · cases taken

/-- Counting replaces a count, never an array. -/
theorem countCall_lasting (limit : Nat) (mine other : Cell) :
    (countCall limit mine other).Lasting := by
  intro m
  have still := still_readCount mine m
  rw [countCall, outcome_bind]
  cases ran : (readCount mine).outcome m with
  | mk result m' =>
    rw [ran] at still
    subst still
    cases result with
    | error fault => exact .refl _
    | ok n =>
      obtain ⟨held, -⟩ := outcome_readCount_eq_ok ran
      have counted : m'.KeepsArrays (m'.put mine (.count (n + 1))) := by
        refine Memory.keepsArrays_put fun a same => ?_
        cases held.symm.trans same
      have still := still_readCount other m'
      dsimp only
      rw [outcome_bind]
      cases ran' : (readCount other).outcome m' with
      | mk result m'' =>
        rw [ran'] at still
        subst still
        cases result with
        | error fault => exact .refl _
        | ok k =>
          dsimp only
          split
          · exact .refl _
          · exact counted

variable {α : Type} {called : Action Value α}

theorem counting_within (limit : Nat) (kind : Evaluation) {mine : Cell} (member : mine ∈ cells)
    (other : Cell) (x : Ref Value) (within : called.Within cells) :
    (counting limit kind mine other x called).Within cells :=
  .bind (.of_still (still_readRef x)) fun _ => .bind (.record _) fun _ =>
    .bind (countCall_within limit member other) fun _ => within

theorem counting_announces (limit : Nat) (kind : Evaluation) (mine other : Cell) (x : Ref Value)
    (silent : called.Silent) :
    (counting limit kind mine other x called).Announces [.evaluation] :=
  .bind (.of_still (still_readRef x)) fun _ => .bind_quiet (.record rfl) fun _ =>
    .of_silent (.bind (countCall_silent limit mine other) fun _ => silent)

theorem counting_lasting (limit : Nat) (kind : Evaluation) (mine other : Cell) (x : Ref Value)
    (lasting : called.Lasting) : (counting limit kind mine other x called).Lasting :=
  .bind (.of_still (still_readRef x)) fun _ => .bind (lasting_record _) fun _ =>
    .bind (countCall_lasting limit mine other) fun _ => lasting

end ProxGrad
