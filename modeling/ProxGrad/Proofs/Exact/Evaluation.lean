import ProxGrad.Proofs.Convex.Misfit
import ProxGrad.Proofs.Exact.SquaredDistance

/-!
# Evaluating terms

What a caller who asks a term for gradients and values at points of its own may rely on: the answers
are those of the term's functions, and no cell changes but the destination and those of the term. A
term may compute a value with a gradient that it throws away, for which it needs a new array.
-/

set_option autoImplicit false

namespace ProxGrad

open Exact

variable {𝕜 : Type} [RCLike 𝕜] {shape : List Nat} {own : TermState (Tensor 𝕜)}
  {m m' : Memory (Tensor 𝕜)}

/-- A memory in which terms can be evaluated: their state is sound, their cells exist, and new
arrays hold anything of their shape. -/
structure TermState.Ready (own : TermState (Tensor 𝕜)) (m : Memory (Tensor 𝕜)) : Prop where
  sound : own.sound m
  existing : ∀ c ∈ own.cells, c.index < m.cells.size
  leftover : ∀ c zeros, (m.leftover c zeros).shape = zeros.shape

namespace TermState.Ready

omit [RCLike 𝕜] in
theorem next_foreign (ready : own.Ready m) : m.next ∉ own.cells :=
  fun member => Nat.lt_irrefl _ (ready.existing _ member)

omit [RCLike 𝕜] in
theorem push (ready : own.Ready m) (v : Tensor 𝕜) : own.Ready (m.push v) where
  sound := own.sound_of_keepsOutside (.push ∅ m v) (fun _ member => member.elim) ready.sound
  existing c member := Memory.lt_size_push (ready.existing c member) v
  leftover := ready.leftover

omit [RCLike 𝕜] in
theorem put {c : Cell} (ready : own.Ready m) (foreign : c ∉ own.cells) (v : Tensor 𝕜) :
    own.Ready (m.put c v) where
  sound := own.sound_of_keepsOutside (.put (Set.mem_singleton c) m v) (fun _ same => same ▸ foreign)
    ready.sound
  existing d member := (Memory.size_put m c v).symm ▸ ready.existing d member
  leftover := ready.leftover

end TermState.Ready

/-- A reference that shows a point, and not through a cell of the terms. -/
structure Shows (own : TermState (Tensor 𝕜)) (m : Memory (Tensor 𝕜)) (x : Ref (Tensor 𝕜))
    (p : Point 𝕜 shape) : Prop where
  seen : (Action.readRef x).outcome m = (.ok (ofPoint p), m)
  foreign : ∀ c, x = .cell c → c ∉ own.cells

namespace Shows

variable {x : Ref (Tensor 𝕜)} {p : Point 𝕜 shape}

omit [RCLike 𝕜] in
theorem const (p : Point 𝕜 shape) : Shows own m (.const (ofPoint p)) p where
  seen := Action.outcome_readRef_const _ m
  foreign := nofun

omit [RCLike 𝕜] in
theorem content {c : Cell} (shows : Shows own m (.cell c) p) : m.content c = some (ofPoint p) :=
  (Action.outcome_read_eq_ok shows.seen).1

omit [RCLike 𝕜] in
theorem of_keepsOutside {cells : Set Cell} (shows : Shows own m x p)
    (kept : m.KeepsOutside cells m') (apart : ∀ c, x = .cell c → c ∉ cells) : Shows own m' x p := by
  cases x with
  | cell c =>
    have held := kept c _ (apart c rfl) shows.content
    exact ⟨Action.outcome_readRef_cell held, shows.foreign⟩
  | const v =>
    cases shows.seen
    exact const p

omit [RCLike 𝕜] in
theorem ne_next (shows : Shows own m x p) : x ≠ .cell m.next := by
  rintro rfl
  exact Memory.ne_next_of_content shows.content rfl

end Shows

/-- A term that tells the values of `f` and writes the gradients `G`. -/
structure SmoothTerm.Evaluates (term : SmoothTerm (Tensor 𝕜)) (own : TermState (Tensor 𝕜))
    (f : Point 𝕜 shape → ℝ) (G : Point 𝕜 shape → Point 𝕜 shape) : Prop where
  gradient {m : Memory (Tensor 𝕜)} {x : Ref (Tensor 𝕜)} {out : Cell} {p old : Point 𝕜 shape} :
    own.Ready m → Shows own m x p → x ≠ .cell out → out ∉ own.cells →
    m.content out = some (ofPoint old) →
    ∃ m', Overwrites own out (G p) () (term.gradient x out) m m' ∧ own.Ready m'
  value {m : Memory (Tensor 𝕜)} (p : Point 𝕜 shape) : own.Ready m →
    ∃ m', (term.value (.const (ofPoint p))).outcome m = (.ok (real (f p)), m') ∧ own.Ready m' ∧
      m.KeepsOutside own.cells m'

variable {f : Point 𝕜 shape → ℝ} {G : Point 𝕜 shape → Point 𝕜 shape}

theorem SmoothTerm.evaluates_ofValueAndGradient
    {g : Ref (Tensor 𝕜) → Cell → Action (Tensor 𝕜) (Tensor 𝕜)}
    (evaluated : ∀ {m : Memory (Tensor 𝕜)} {x : Ref (Tensor 𝕜)} {out : Cell}
      {p old : Point 𝕜 shape}, own.sound m → Shows own m x p → x ≠ .cell out →
      m.content out = some (ofPoint old) →
      (g x out).outcome m = (.ok (real (f p)), m.put out (ofPoint (G p)))) :
    (SmoothTerm.ofValueAndGradient g).Evaluates own f G where
  gradient {m x out p old} ready shows apart foreign held := by
    obtain ⟨_, written, sound, kept⟩ := overwrites_store ready.sound foreign held (G p)
    have ran := evaluated ready.sound shows apart held
    exact ⟨_, ⟨Action.outcome_bind_of_ok ran, written, sound, kept⟩, ready.put foreign _⟩
  value {m} p ready := by
    -- The value comes with a gradient, which goes to a new array that nothing refers to.
    obtain ⟨q, fresh⟩ :=
      exists_outcome_freshLike (Action.outcome_readRef_const (ofPoint p) m) ready.leftover
    have ran := evaluated (ready.push (ofPoint q)).sound (.const p)
      (by nofun) (Memory.content_push_next m (ofPoint q))
    refine ⟨_, (Action.outcome_bind_of_ok fresh).trans ran,
      (ready.push _).put ready.next_foreign _, fun c v _ held => ?_⟩
    rw [Memory.content_put_of_ne (Memory.ne_next_of_content held)]
    exact Memory.content_push_of_content held _

namespace LeastSquares

variable {observed : List Nat} {term : LeastSquares (Tensor 𝕜)}
  {A : Point 𝕜 shape →ₗ[𝕜] Point 𝕜 observed} {y : Point 𝕜 observed}

theorem Represents.evaluates (represents : term.Represents own A y) :
    term.term.Evaluates own (misfitAt A y) (gradientAt A y) where
  gradient {m x out p old} ready shows _ foreign held := by
    have found := represents.outcome_residual ready.sound shows.seen
    obtain ⟨stored, written, sound, kept⟩ :=
      represents.outcome_storeGradient ready.sound (A p - y) foreign held
    exact ⟨_, ⟨(Action.outcome_bind_of_ok found).trans stored, written, sound, kept⟩,
      ready.put foreign _⟩
  value {m} p ready :=
    ⟨m, (represents.agrees.valued ready.sound (Action.outcome_readRef_const _ m)).1, ready,
      .refl _ m⟩

end LeastSquares

namespace Terms

theorem squaredDistance_evaluates {data : Ref (Tensor 𝕜)} {y : Point 𝕜 shape}
    (dataSeen : ∀ m, own.sound m → (Action.readRef data).outcome m = (.ok (ofPoint y), m)) :
    (squaredDistance data).Evaluates own (distanceAt y) (· - y) :=
  SmoothTerm.evaluates_ofValueAndGradient fun sound shows _ held =>
    outcome_squaredDistance (dataSeen _ sound) shows.seen held

end Terms

/-! ## The cubic term -/

section

variable {shape : List Nat} {own : TermState (Tensor ℝ)}

/-- The coefficients of the cubic term: one number for all coordinates, or an array with one for
each. -/
inductive Coefficients : Tensor ℝ → Point ℝ shape → Prop
  | uniform (r : ℝ) : Coefficients (real r) (WithLp.toLp 2 fun _ => r)
  | each (c : Point ℝ shape) : Coefficients (ofPoint c) c

noncomputable def cubicAt (c p : Point ℝ shape) : ℝ :=
  ∑ i, c i * p i ^ 3

noncomputable def cubicGradientAt (c p : Point ℝ shape) : Point ℝ shape :=
  WithLp.toLp 2 fun i => 3 * c i * p i ^ 2

theorem Exact.mul_ofPoint (p q : Point ℝ shape) :
    Calculus.mul (ofPoint p) (ofPoint q) = .ok (ofPoint (WithLp.toLp 2 fun i => p i * q i)) :=
  entrywise_ofPoint (· * ·) p q

namespace Coefficients

variable {t : Tensor ℝ} {c : Point ℝ shape}

theorem mul (coefficients : Coefficients t c) (p : Point ℝ shape) :
    Calculus.mul t (ofPoint p) = .ok (ofPoint (WithLp.toLp 2 fun i => c i * p i)) := by
  cases coefficients with
  | uniform r => exact scalar_entrywise_ofPoint (· * ·) r p
  | each c => exact mul_ofPoint c p

theorem scaled (coefficients : Coefficients t c) (r : ℝ) :
    ∃ t', Calculus.mul (real r) t = .ok t' ∧ Coefficients t' (r • c) := by
  cases coefficients with
  | uniform s => exact ⟨_, mul_real r s, .uniform (r * s)⟩
  | each c => exact ⟨_, mul_real_ofPoint r c, .each (r • c)⟩

theorem gradient_eq (coefficients : Coefficients t c) (p : Point ℝ shape) :
    (do
      let tripled ← Calculus.mul (Calculus.ofDecimal 3 0) t
      let once ← Calculus.mul tripled (ofPoint p)
      Calculus.mul once (ofPoint p)) = .ok (ofPoint (cubicGradientAt c p)) := by
  obtain ⟨t', tripled, coefficients'⟩ := coefficients.scaled 3
  have three : (Calculus.ofDecimal 3 0 : Tensor ℝ) = real 3 := by
    rw [ofDecimal_eq_real]
    norm_num
  simp only [three, tripled, bind, Except.bind, coefficients'.mul, mul_ofPoint]
  refine congrArg (fun q => Except.ok (ofPoint q)) (PiLp.ext fun i => ?_)
  change 3 * c i * p i * p i = 3 * c i * p i ^ 2
  ring

theorem value_eq (coefficients : Coefficients t c) (p : Point ℝ shape) :
    (do
      let once ← Calculus.mul t (ofPoint p)
      let twice ← Calculus.mul once (ofPoint p)
      let total ← Calculus.sum (← Calculus.mul twice (ofPoint p))
      Calculus.literal total) = .ok (real (cubicAt c p)) := by
  simp only [bind, Except.bind, coefficients.mul, mul_ofPoint]
  have total : (List.ofFn fun i => c i * p i * p i * p i).sum = cubicAt c p := by
    rw [List.sum_ofFn, cubicAt]
    exact Finset.sum_congr rfl fun i _ => by ring
  rw [← total]
  rfl

end Coefficients

theorem Terms.cubic_evaluates {coefficients : Ref (Tensor ℝ)} {t : Tensor ℝ} {c : Point ℝ shape}
    (seen : ∀ m, own.sound m → (Action.readRef coefficients).outcome m = (.ok t, m))
    (given : Coefficients t c) :
    (Terms.cubic coefficients).Evaluates own (cubicAt c) (cubicGradientAt c) := by
  refine SmoothTerm.evaluates_ofValueAndGradient fun {m x out p old} sound shows apart held => ?_
  have stored := Action.outcome_store held (ofPoint (cubicGradientAt c p))
  rw [store_ofPoint] at stored
  have shows' : Shows own (m.put out (ofPoint (cubicGradientAt c p))) x p :=
    shows.of_keepsOutside (.put (Set.mem_singleton out) m _) fun d same inside =>
      apart (same.trans (congrArg Ref.cell inside))
  rw [Action.outcome_bind_of_ok (seen m sound), Action.outcome_bind_of_ok shows.seen,
    given.gradient_eq, Action.outcome_bind_of_ok (Action.outcome_lift _ m),
    Action.outcome_bind_of_ok stored, Action.outcome_bind_of_ok shows'.seen, given.value_eq]
  rfl

end

end ProxGrad
