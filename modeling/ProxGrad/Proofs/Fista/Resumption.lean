import ProxGrad.Proofs.Fista.Reset
import ProxGrad.Proofs.Fista.WholeRun

/-!
# Resumed runs

From a reset on the momentum is held for the rest of the run, so that every further iteration is a
plain proximal gradient step. What an iteration hands to the next is then nothing but the iterate: a
run can stop there and go on later, without acceleration, from the same array.
-/

set_option autoImplicit false

namespace ProxGrad

section

variable {V : Type}

/-- A plan with a number of iterations and an array for their values. -/
def Plan.limited (plan : Plan V) (count : Nat) (history : Option Cell) : Plan V :=
  { plan with iterations := some count, history }

def Plan.plain (plan : Plan V) : Plan V :=
  { plan with accelerated := false }

/-- A run begun on a memory has, after `n` iterations, this content in the caller's array. -/
def Fista.Stands [Calculus V] (objective : Objective V) (plan : Plan V) (x : Cell)
    (begun : Memory V) (n : Nat) (content : V) : Prop :=
  ∃ w s m, Reached objective plan x begun n w s m ∧ m.content x = some content

end

namespace Fista

open Exact

variable {𝕜 : Type} [RCLike 𝕜] {shape : List Nat} {plan : Plan (Tensor 𝕜)}
  {own : TermState (Tensor 𝕜)} {objective : Objective (Tensor 𝕜)}
  {f : Point 𝕜 shape → ℝ} {G : Point 𝕜 shape → Point 𝕜 shape}
  {P : Point 𝕜 shape → ℝ → Point 𝕜 shape} {L : ℝ} {count N M : Nat} {x : Cell}
  {m m₁ m₂ m' : Memory (Tensor 𝕜)} {x₀ : Point 𝕜 shape} {h h₁ h₂ : Option Cell}

theorem Start.stands (start : Start plan own x m x₀ L count)
    (computes : objective.Computes own f G P) {n : Nat} (bound : n ≤ count) :
    Stands objective plan x m n (ofPoint ((recurrenceOf plan G P L).iterate x₀ n)) := by
  obtain ⟨w, rfl, _, reached⟩ := start.reached computes
  obtain ⟨s, m', stands, invariant⟩ := reached n bound
  exact ⟨w, s, m', stands, invariant.iterate⟩

theorem Start.plain (start : Start plan own x m x₀ L count) :
    Start plan.plain own x m x₀ L count :=
  ⟨start.lipschitz, start.positive, start.iterations, start.held, start.foreign, start.sound,
    start.existing, start.leftover, start.history⟩

/-- From a reset on, and in a plain run from the start, all iterations end at their proximal
points. -/
def SettledFrom (plan : Plan (Tensor 𝕜)) (N : Nat) : Prop :=
  plan.accelerated = false ∨ ∃ R, plan.resetAfter = some R ∧ R ≤ N

omit [RCLike 𝕜] in
theorem SettledFrom.lands (settled : SettledFrom plan N) {n : Nat} (later : N ≤ n) :
    (recurrenceOf plan G P L).Lands n :=
  settled.imp_right fun ⟨R, reset, before⟩ => .inr ⟨R, reset, before.trans later⟩

theorem Start.stands_succ (start : Start plan own x m x₀ L count)
    (computes : objective.Computes own f G P) (settled : SettledFrom plan N) {n : Nat}
    (later : N ≤ n) (below : n < count) :
    ∃ p, Stands objective plan x m n (ofPoint p) ∧
      Stands objective plan x m (n + 1) (ofPoint (P (p - L⁻¹ • G p) (1 / L))) := by
  have next := start.stands computes (Nat.succ_le_of_lt below)
  rw [Recurrence.iterate_of_lands _ x₀ (settled.lands later)] at next
  exact ⟨_, start.stands computes below.le, next⟩

theorem Start.stands_plain (start : Start plan own x m x₀ L count)
    (computes : objective.Computes own f G P) (reset : plan.resetAfter = some 1) {n : Nat}
    (bound : n ≤ count) :
    ∃ p : Point 𝕜 shape, Stands objective plan x m n (ofPoint p) ∧
      Stands objective plan.plain x m n (ofPoint p) := by
  have lands (k : Nat) (_ : 0 ≤ k) : (recurrenceOf plan G P L).Lands k := by
    cases k with
    | zero => exact .inr (.inl rfl)
    | succ k => exact .inr (.inr ⟨1, reset, Nat.succ_le_succ (Nat.zero_le k)⟩)
  have same := (recurrenceOf plan G P L).iterate_add_of_lands x₀ lands n
  rw [Nat.zero_add] at same
  refine ⟨_, start.stands computes bound, ?_⟩
  rw [same]
  exact start.plain.stands computes bound

/-- The array for the values of the second run lies apart from all that the first one writes. -/
def Spare (own : TermState (Tensor 𝕜)) (x : Cell) (m : Memory (Tensor 𝕜)) (M : Nat)
    (h₁ h₂ : Option Cell) : Prop :=
  ∀ c, h₂ = some c → h₁ ≠ some c ∧ c ≠ x ∧ c ∉ own.cells ∧
    ∃ values, m.content c = some values ∧ values.shape = [M]

theorem Ran.start (ran : Ran objective (plan.limited N h₁) own f
      (recurrenceOf (plan.limited N h₁) G P L) x₀ N x m m₁)
    (part : Start (plan.limited N h₁) own x m x₀ L N) (spare : Spare own x m M h₁ h₂)
    {leftover : Cell → Tensor 𝕜 → Tensor 𝕜}
    (shaped : ∀ c zeros, (leftover c zeros).shape = zeros.shape) :
    Start (plan.limited M h₂).plain own x { m₁ with leftover }
      ((recurrenceOf (plan.limited N h₁) G P L).iterate x₀ N) L M where
  lipschitz := part.lipschitz
  positive := part.positive
  iterations := rfl
  held := ran.iterate
  foreign := part.foreign
  sound := own.sound_of_kept (m := m₁) (fun _ _ _ held => held) ran.sound
  existing c member := (part.existing c member).trans_le ran.larger
  leftover := shaped
  history c chosen := by
    obtain ⟨other, different, foreign, values, held, shape⟩ := spare c chosen
    refine ⟨different, foreign, values, ran.kept c values ?_ held, shape⟩
    rintro ((same | member) | taken)
    · exact different same
    · exact foreign member
    · exact other taken

/-- Two runs in a row leave what one run of as many iterations leaves: the same content of the
caller's array, the smooth term called at the same points, and histories that together are its
history. -/
structure Resumes (objective : Objective (Tensor 𝕜)) (whole first rest : Plan (Tensor 𝕜)) (x : Cell)
    (m m₁ m₂ m' : Memory (Tensor 𝕜)) (leftover : Cell → Tensor 𝕜 → Tensor 𝕜) : Prop where
  content : m₂.content x = m'.content x
  points : evaluatedPoints objective whole x m = evaluatedPoints objective first x m ++
    evaluatedPoints objective rest x { m₁ with leftover }
  evaluations : objective.Records →
    m₂.evaluations.map Prod.snd = m'.evaluations.map Prod.snd
  history : ∀ a b c, whole.history = some a → first.history = some b → rest.history = some c →
    ∃ v v₁ v₂, m'.content a = some v ∧ m₂.content b = some v₁ ∧ m₂.content c = some v₂ ∧
      v.entries = v₁.entries ++ v₂.entries

theorem map_range_add {α : Type} {g g' : Nat → α} (N M : Nat) (same : ∀ k, g (N + k) = g' k) :
    (List.range (N + M)).map g = (List.range N).map g ++ (List.range M).map g' := by
  rw [List.range_add, List.map_append, List.map_map]
  exact congrArg _ (List.map_congr_left fun k _ => same k)

theorem Ran.resumes {leftover : Cell → Tensor 𝕜 → Tensor 𝕜}
    (whole : Ran objective (plan.limited (N + M) h) own f (recurrenceOf plan G P L) x₀ (N + M) x m
      m')
    (first : Ran objective (plan.limited N h₁) own f (recurrenceOf plan G P L) x₀ N x m m₁)
    (rest : Ran objective (plan.limited M h₂).plain own f (recurrenceOf plan G P L).plain
      ((recurrenceOf plan G P L).iterate x₀ N) M x { m₁ with leftover } m₂)
    (settled : SettledFrom plan N) (part : Start (plan.limited N h₁) own x m x₀ L N)
    (spare : Spare own x m M h₁ h₂) :
    Resumes objective (plan.limited (N + M) h) (plan.limited N h₁) (plan.limited M h₂).plain x
      m m₁ m₂ m' leftover := by
  have goes (k : Nat) : (recurrenceOf plan G P L).iterate x₀ (N + k) =
      (recurrenceOf plan G P L).plain.iterate ((recurrenceOf plan G P L).iterate x₀ N) k :=
    (recurrenceOf plan G P L).iterate_add_of_lands x₀ (fun _ later => settled.lands later) k
  constructor
  · rw [whole.iterate, rest.iterate, goes]
  · rw [whole.points, first.points, rest.points]
    exact map_range_add N M fun k => congrArg ofPoint (goes k)
  · intro records
    have before : ({ m₁ with leftover } : Memory (Tensor 𝕜)).evaluations = m₁.evaluations := rfl
    rw [whole.evaluations records, rest.evaluations records, before, first.evaluations records]
    simp only [List.map_append, List.map_map, List.append_assoc]
    rw [map_range_add N M fun k => congrArg ofPoint (goes k)]
    rfl
  · intro a b c chosen chosen₁ chosen₂
    obtain ⟨v, held, entries⟩ := whole.history a chosen
    obtain ⟨v₁, held₁, entries₁⟩ := first.history b chosen₁
    obtain ⟨v₂, held₂, entries₂⟩ := rest.history c chosen₂
    refine ⟨v, v₁, v₂, held, rest.kept b v₁ ?_ held₁, held₂, ?_⟩
    · obtain ⟨different, foreign, -⟩ := part.history b chosen₁
      rintro ((same | member) | taken)
      · exact different same
      · exact foreign member
      · exact (spare b taken).1 chosen₁
    · rw [entries, entries₁, entries₂]
      exact map_range_add N M fun k => by rw [goes]

/-- What a reset means. One that comes no earlier than the last iteration is none. From a reset on
every iteration is a plain proximal gradient step, so that with a reset after the first iteration
the run is the plain one. A run that has come to its reset, or is plain, can be stopped and resumed
without acceleration on the same array: the two runs leave what the whole one leaves, whatever new
arrays hold. -/
theorem reset_holds_and_runs_resume (computes : objective.Computes own f G P)
    (whole : Start (plan.limited (N + M) h) own x m x₀ L (N + M))
    (part : Start (plan.limited N h₁) own x m x₀ L N) (spare : Spare own x m M h₁ h₂) :
    (∀ R, plan.resetAfter = some R → N ≤ R →
      ∀ (objective : Action (Tensor 𝕜) (Objective (Tensor 𝕜))) (x : Cell) (m : Memory (Tensor 𝕜)),
        (minimize objective (plan.limited N h₁) x).outcome m =
          (minimize objective (plan.limited N h₁).withoutReset x).outcome m) ∧
    (∀ R, plan.resetAfter = some R → ∀ n, R ≤ n → n < N + M → ∃ p,
      Stands objective (plan.limited (N + M) h) x m n (ofPoint p) ∧
      Stands objective (plan.limited (N + M) h) x m (n + 1)
        (ofPoint (P (p - L⁻¹ • G p) (1 / L)))) ∧
    (plan.resetAfter = some 1 → ∀ n ≤ N + M, ∃ p : Point 𝕜 shape,
      Stands objective (plan.limited (N + M) h) x m n (ofPoint p) ∧
      Stands objective (plan.limited (N + M) h).plain x m n (ofPoint p)) ∧
    (SettledFrom plan N → ∃ m₁ m',
      (minimize (pure objective) (plan.limited N h₁) x).outcome m = (.ok x, m₁) ∧
      (minimize (pure objective) (plan.limited (N + M) h) x).outcome m = (.ok x, m') ∧
      ∀ leftover : Cell → Tensor 𝕜 → Tensor 𝕜,
        (∀ c zeros, (leftover c zeros).shape = zeros.shape) → ∃ m₂,
          (minimize (pure objective) (plan.limited M h₂).plain x).outcome { m₁ with leftover } =
            (.ok x, m₂) ∧
          Resumes objective (plan.limited (N + M) h) (plan.limited N h₁) (plan.limited M h₂).plain x
            m m₁ m₂ m' leftover) := by
  refine ⟨?_, ?_, ?_, ?_⟩
  · intro R reset late objective x m
    have limited : (plan.limited N h₁).iterations = some N := rfl
    exact (outcome_minimize_withoutReset limited reset late).symm
  · intro R reset n later below
    have settled : SettledFrom (plan.limited (N + M) h) R := .inr ⟨R, reset, le_rfl⟩
    exact whole.stands_succ computes settled later below
  · intro reset n bound
    exact whole.stands_plain computes reset bound
  · intro settled
    obtain ⟨m₁, ran₁⟩ := part.ran computes
    obtain ⟨m', ran⟩ := whole.ran computes
    refine ⟨m₁, m', ran₁.outcome, ran.outcome, fun leftover shaped => ?_⟩
    obtain ⟨m₂, ran₂⟩ := (ran₁.start part spare shaped).ran computes
    exact ⟨m₂, ran₂.outcome, ran.resumes ran₁ ran₂ settled part spare⟩

/-- Two iterations on a LASSO problem with a reset after the second, and three more without
acceleration, each with a history of their own. -/
theorem lasso_run_resumes :
    let A : Matrix (Fin (Shape.size [2])) (Fin (Shape.size [2])) ℝ := !![1, 1; 0, 1]
    let y : Point ℝ [2] := WithLp.toLp 2 ![3, -1]
    let plan : Plan (Tensor ℝ) := quietPlan 3 true (some 2) 0
    let m : Memory (Tensor ℝ) :=
      { cells := #[ofPoint y, .fill [5] 0, .fill [2] 0, .fill [3] 0] }
    ∃ m₁ m' m₂ v v₁ v₂,
      (minimize (pure (lasso A y 1)) (plan.limited 5 (some ⟨1⟩)) ⟨0⟩).outcome m = (.ok ⟨0⟩, m') ∧
      (minimize (pure (lasso A y 1)) (plan.limited 2 (some ⟨2⟩)) ⟨0⟩).outcome m = (.ok ⟨0⟩, m₁) ∧
      (minimize (pure (lasso A y 1)) (plan.limited 3 (some ⟨3⟩)).plain ⟨0⟩).outcome
        { m₁ with leftover := fun _ zeros => zeros } = (.ok ⟨0⟩, m₂) ∧
      m₂.content ⟨0⟩ = m'.content ⟨0⟩ ∧ m'.content ⟨1⟩ = some v ∧ m₂.content ⟨2⟩ = some v₁ ∧
      m₂.content ⟨3⟩ = some v₂ ∧ v.entries = v₁.entries ++ v₂.entries := by
  intro A y plan m
  have start (count : Nat) (i : Nat) (apart : (⟨i⟩ : Cell) ≠ ⟨0⟩)
      (held : m.content ⟨i⟩ = some (.fill [count] 0)) :
      Start (plan.limited count (some ⟨i⟩)) .nothing ⟨0⟩ m y 3 count := {
    lipschitz := rfl
    positive := three_pos
    iterations := rfl
    held := rfl
    foreign := Set.notMem_empty _
    sound := trivial
    existing := fun c inside => absurd inside (Set.notMem_empty c)
    leftover := fun _ _ => rfl
    history := by
      rintro c ⟨⟩
      exact ⟨apart, Set.notMem_empty _, _, held, rfl⟩ }
  have spare : Spare .nothing ⟨0⟩ m 3 (some ⟨2⟩) (some ⟨3⟩) := by
    rintro c ⟨⟩
    exact ⟨by decide, by decide, Set.notMem_empty _, _, rfl, rfl⟩
  obtain ⟨-, -, -, resumes⟩ := reset_holds_and_runs_resume (N := 2) (M := 3) (lasso_computes A y 1)
    (start 5 1 (by decide) rfl) (start 2 2 (by decide) rfl) spare
  obtain ⟨m₁, m', first, whole, again⟩ := resumes (.inr ⟨2, rfl, le_rfl⟩)
  obtain ⟨m₂, rest, content, -, -, history⟩ := again _ fun _ _ => rfl
  obtain ⟨v, v₁, v₂, held, held₁, held₂, entries⟩ := history _ _ _ rfl rfl rfl
  exact ⟨m₁, m', m₂, v, v₁, v₂, whole, first, rest, content, held, held₁, held₂, entries⟩

end Fista

end ProxGrad
