import ProxGrad.Proofs.Fista.Observation
import ProxGrad.Terms.Proximal
import ProxGrad.Value.Arithmetic

/-!
# Terms that count their calls

A counted term keeps the number of its calls, gradients and values with gradients apart, and fails
once there were as many as a limit. Runs that ask for the one or for the other count in different
cells, and fail at the same call all the same, because only the sum matters.
-/

set_option autoImplicit false

namespace ProxGrad

/-! ## Counts -/

def Value.count (n : Nat) : Value :=
  .int n

def readCount (c : Cell) : Action Value Nat := do
  match ← Action.read c with
  | .int (.ofNat n) => return n
  | _ => throw .noField

/-- Adds one call to those of a cell, unless this and another cell have as many as allowed. -/
def countCall (limit : Nat) (mine other : Cell) : Action Value Unit := do
  let n ← readCount mine
  let k ← readCount other
  if limit ≤ n + k then throw (.term .gradient)
  Action.write mine (.count (n + 1))

theorem outcome_readCount {m : Memory Value} {c : Cell} {n : Nat}
    (held : m.content c = some (.count n)) : (readCount c).outcome m = (.ok n, m) :=
  Action.outcome_bind_of_ok (Action.outcome_read held)

theorem outcome_countCall (limit : Nat) {mine other : Cell} {m : Memory Value} {n k : Nat}
    (held : m.content mine = some (.count n)) (held' : m.content other = some (.count k)) :
    (countCall limit mine other).outcome m =
      if limit ≤ n + k then (.error (.term .gradient), m)
      else (.ok (), m.put mine (.count (n + 1))) := by
  rw [countCall, Action.outcome_bind_of_ok (outcome_readCount held),
    Action.outcome_bind_of_ok (outcome_readCount held')]
  by_cases spent : limit ≤ n + k
  · rw [if_pos spent, if_pos spent]
    rfl
  · rw [if_neg spent, if_neg spent]
    rfl

theorem countCall_sparing {buffer mine : Cell} (different : buffer ≠ mine) (limit : Nat)
    (other : Cell) : (countCall limit mine other).Sparing buffer := by
  have counts (c : Cell) : (readCount c).Sparing buffer := by
    refine .bind (.read c) fun v => ?_
    split
    · exact .pure _
    · exact fun m => .refl buffer m
  refine .bind (counts mine) fun n => .bind (counts other) fun k => ?_
  by_cases spent : limit ≤ n + k
  · rw [if_pos spent]
    exact fun m => .refl buffer m
  · rw [if_neg spent]
    exact fun m => .put different m _

/-! ## Counted terms -/

def counting {α : Type} (limit : Nat) (kind : Evaluation) (mine other : Cell) (x : Ref Value)
    (called : Action Value α) : Action Value α := do
  Action.record (.evaluation kind (← Action.readRef x))
  countCall limit mine other
  called

/-- A term that announces its calls, counts them, and fails from a limit on. -/
def SmoothTerm.counted (limit : Nat) (gradients values : Cell) (term : SmoothTerm Value) :
    SmoothTerm Value where
  gradient x out := counting limit .gradient gradients values x (term.gradient x out)
  valueAndGradient x out :=
    counting limit .valueAndGradient values gradients x (term.valueAndGradient x out)
  value := term.value

/-- Memories with as many calls in two cells, however they are divided. -/
def sameTotal (gradients values : Cell) (scratch : Nat) : Likeness Value where
  kept := {gradients, values}
  scratch
  alike m₁ m₂ := ∃ n k n' k',
    m₁.content gradients = some (.count n) ∧ m₁.content values = some (.count k) ∧
    m₂.content gradients = some (.count n') ∧ m₂.content values = some (.count k') ∧
    n + k = n' + k'
  alike_of_same := by
    rintro m₁ m₁' m₂ m₂' same₁ same₂ ⟨n, k, n', k', held⟩
    refine ⟨n, k, n', k', ?_⟩
    rw [same₁ gradients (.inl (by simp)), same₁ values (.inl (by simp)),
      same₂ gradients (.inl (by simp)), same₂ values (.inl (by simp))]
    exact held

variable {gradients values buffer : Cell} {scratch : Nat}

theorem ne_of_not_mem_sameTotal {c : Cell}
    (foreign : c ∉ (sameTotal gradients values scratch).cells) : c ≠ gradients ∧ c ≠ values := by
  simpa [sameTotal, not_or] using Likeness.not_kept foreign

theorem agree_counted (apart : gradients ≠ values) {m₁ m₂ : Memory Value}
    (agree : m₁.Agree (sameTotal gradients values scratch) buffer m₂) {n k : Nat}
    (held : m₁.content gradients = some (.count n)) (held' : m₂.content values = some (.count k)) :
    (m₁.put gradients (.count (n + 1))).Agree (sameTotal gradients values scratch) buffer
      (m₂.put values (.count (k + 1))) where
  larger := by rw [Memory.size_put]; exact agree.larger
  larger' := by rw [Memory.size_put]; exact agree.larger'
  leftover := agree.leftover
  content := by
    intro c outside visible
    have different := ne_of_not_mem_sameTotal outside
    rw [Memory.content_put_of_ne different.1, Memory.content_put_of_ne different.2,
      agree.content c outside visible]
  alike := by
    obtain ⟨n₁, k₁, n₂, k₂, gradients₁, values₁, gradients₂, values₂, same⟩ := agree.alike
    cases held.symm.trans gradients₁
    cases held'.symm.trans values₂
    refine ⟨n + 1, k₁, n₂, k + 1, Memory.content_put_self held _, ?_, ?_,
      Memory.content_put_self held' _, ?_⟩
    · rw [Memory.content_put_of_ne apart.symm, values₁]
    · rw [Memory.content_put_of_ne apart, gradients₂]
    · omega

variable {α : Type} {x mine other : Cell} {m : Memory Value} {p : Value} {limit : Nat}
  {called : Action Value α}

def Memory.announcing (m : Memory Value) (kind : Evaluation) (p : Value) : Memory Value :=
  { m with calls := m.calls.push (.evaluation kind p) }

theorem outcome_counting (kind : Evaluation) (held : m.content x = some p)
    (called : Action Value α) :
    (counting limit kind mine other (.cell x) called).outcome m =
      (countCall limit mine other >>= fun _ => called).outcome (m.announcing kind p) := by
  rw [counting, Action.outcome_bind_of_ok (Action.outcome_readRef_cell held),
    Action.outcome_bind_of_ok (Action.outcome_record _ m)]
  rfl

theorem spares_announcing (buffer : Cell) (m : Memory Value) (kind : Evaluation) (p : Value) :
    m.Spares buffer (kind.announced p) (m.announcing kind p) :=
  ⟨rfl, rfl,
    by simp [Memory.evaluations, Memory.announcing, Call.evaluation?, Evaluation.announced],
    Nat.le_refl _⟩

/-- A counted call announces itself and shows nothing else, if what is called shows nothing. -/
theorem spares_counting (kind : Evaluation) (different : buffer ≠ mine)
    (spares : ∀ (m : Memory Value) (p : Value), m.content x = some p →
      m.Spares buffer [] (called.outcome m).2)
    (held : m.content x = some p) :
    m.Spares buffer (kind.announced p)
      ((counting limit kind mine other (.cell x) called).outcome m).2 := by
  have announced := spares_announcing buffer m kind p
  have counts := countCall_sparing different limit other (m.announcing kind p)
  rw [outcome_counting kind held, Action.outcome_bind]
  cases ran : (countCall limit mine other).outcome (m.announcing kind p) with
  | mk result m' =>
      rw [ran] at counts
      cases result with
      | error fault => simpa using announced.trans counts
      | ok _ =>
          have bound := Nat.lt_of_lt_of_le (Memory.index_lt_of_content held) counts.larger
          obtain ⟨p', held'⟩ := Memory.exists_content bound
          simpa using announced.trans (counts.trans (spares m' p' held'))

variable {term : SmoothTerm Value} {f : Value → Value}

theorem SmoothTerm.Observable.counted
    (inner : term.Observable (sameTotal gradients values scratch) buffer f Evaluation.unheard)
    (apart : gradients ≠ values) (gradients_ne : buffer ≠ gradients) (values_ne : buffer ≠ values)
    (limit : Nat) :
    (term.counted limit gradients values).Observable (sameTotal gradients values scratch) buffer f
      Evaluation.announced where
  alike := by
    intro m₁ m₂ x out p agree different x_foreign x_visible out_foreign out_visible held
    have held₂ : m₂.content x = some p := by
      rw [← agree.content x x_foreign x_visible, held]
    have x_apart := ne_of_not_mem_sameTotal x_foreign
    have agree' : (m₁.announcing .gradient p).Agree (sameTotal gradients values scratch) buffer
        (m₂.announcing .valueAndGradient p) := agree.calls _ _
    obtain ⟨n, k, n', k', gradients₁, values₁, gradients₂, values₂, same⟩ := agree'.alike
    change Alike _ _ _ ((counting _ _ _ _ _ _).outcome m₁) ((counting _ _ _ _ _ _).outcome m₂)
    rw [outcome_counting _ held, outcome_counting _ held₂, Action.outcome_bind,
      Action.outcome_bind, outcome_countCall limit gradients₁ values₁,
      outcome_countCall limit values₂ gradients₂]
    by_cases spent : limit ≤ n + k
    · rw [if_pos spent, if_pos (by omega)]
      exact ⟨.error _, agree'⟩
    · rw [if_neg spent, if_neg (by omega)]
      refine inner.alike (agree_counted apart agree' gradients₁ values₂) different x_foreign
        x_visible out_foreign out_visible (p := p) ?_
      rw [Memory.content_put_of_ne x_apart.1]
      exact held
  value := by
    intro m₁ m m' x out p v agree x_foreign held ran
    have x_apart := ne_of_not_mem_sameTotal x_foreign
    have agree' : (m₁.announcing .gradient p).Agree (sameTotal gradients values scratch) buffer
        (m.announcing .valueAndGradient p) := agree.calls _ _
    obtain ⟨n, k, n', k', gradients₁, _, gradients₂, values₂, _⟩ := agree'.alike
    have counts := (outcome_counting .valueAndGradient held _).symm.trans ran
    rw [Action.outcome_bind, outcome_countCall limit values₂ gradients₂] at counts
    by_cases spent : limit ≤ k' + n'
    · rw [if_pos spent] at counts
      cases counts
    · rw [if_neg spent] at counts
      refine inner.value (agree_counted apart agree' gradients₁ values₂) x_foreign ?_ counts
      rw [Memory.content_put_of_ne x_apart.2]
      exact held
  gradient := by
    intro m x out p out_visible held
    exact spares_counting .gradient gradients_ne (fun m p => inner.gradient out_visible) held
  valueAndGradient := by
    intro m x out p out_visible held
    exact spares_counting .valueAndGradient values_ne
      (fun m p => inner.valueAndGradient out_visible) held

end ProxGrad
