import ProxGrad.Proofs.Convex.LeastSquares
import ProxGrad.Proofs.Exact.Subsampling

/-!
# Evaluations of the least-squares misfit

Every evaluation of a least-squares term tells the same function and the same gradient, and in exact
arithmetic the gradient is that of the function: the misfit is the quadratic function that value and
gradient at one point determine.
-/

set_option autoImplicit false

namespace ProxGrad

open Exact

variable {𝕜 : Type} [RCLike 𝕜] {shape observed : List Nat}

/-- Evaluations that agree with each other. The gradient is written with the value as without it,
and the memory is then the same; the value is the same wherever it is asked for. The destination may
be the point itself. -/
structure SmoothTerm.Agrees (term : SmoothTerm (Tensor 𝕜)) (own : TermState (Tensor 𝕜))
    (f : Point 𝕜 shape → ℝ) (G : Point 𝕜 shape → Point 𝕜 shape) : Prop where
  written {m : Memory (Tensor 𝕜)} {x : Ref (Tensor 𝕜)} {out : Cell} {p old : Point 𝕜 shape} :
    own.sound m → (Action.readRef x).outcome m = (.ok (ofPoint p), m) → out ∉ own.cells →
    m.content out = some (ofPoint old) →
    ∃ m', Overwrites own out (G p) (real (f p)) (term.valueAndGradient x out) m m' ∧
      (term.gradient x out).outcome m = (.ok (), m')
  valued {m : Memory (Tensor 𝕜)} {x : Ref (Tensor 𝕜)} {p : Point 𝕜 shape} :
    own.sound m → (Action.readRef x).outcome m = (.ok (ofPoint p), m) →
    (term.value x).outcome m = (.ok (real (f p)), m) ∧
      (term.call x).outcome m = (.ok (real (f p)), m)

namespace LeastSquares

variable {term : LeastSquares (Tensor 𝕜)} {own : TermState (Tensor 𝕜)}
  {A : Point 𝕜 shape →ₗ[𝕜] Point 𝕜 observed} {y : Point 𝕜 observed}

theorem Represents.agrees (represents : term.Represents own A y) :
    term.term.Agrees own (misfitAt A y) (gradientAt A y) where
  written := by
    intro m x out p old sound seen foreign destination
    have found := represents.outcome_residual sound seen
    obtain ⟨stored, written, sound', kept⟩ :=
      represents.outcome_storeGradient sound (A p - y) foreign destination
    refine ⟨_, ⟨?_, written, sound', kept⟩, (Action.outcome_bind_of_ok found).trans stored⟩
    refine (Action.outcome_bind_of_ok found).trans ((Action.outcome_bind_of_ok stored).trans ?_)
    rw [misfit_flatten_ofPoint]
    rfl
  valued := by
    intro m x p sound seen
    have evaluated : (term.term.value x).outcome m = (.ok (real (misfitAt A y p)), m) := by
      refine (Action.outcome_bind_of_ok (represents.outcome_residual sound seen)).trans ?_
      rw [misfit_flatten_ofPoint]
      rfl
    exact ⟨evaluated, evaluated⟩

/-- The least-squares terms of the operators at hand, each with the linear map that its operator is
and with its data: the products with a matrix, kept in either way, and among real numbers the choice
of every other row and column of an image. Points and data have any shapes of the right sizes. -/
inductive Of (own : TermState (Tensor 𝕜)) :
    LeastSquares (Tensor 𝕜) → (Point 𝕜 shape →ₗ[𝕜] Point 𝕜 observed) → Point 𝕜 observed → Prop
  | matrix (storage : Storage) (A : Matrix (Fin (Shape.size observed)) (Fin (Shape.size shape)) 𝕜)
      (y : Point 𝕜 observed) {matrix data : Ref (Tensor 𝕜)}
      (matrixSeen : ∀ m, own.sound m →
        (Action.readRef matrix).outcome m = (.ok (Exact.ofMatrix A), m))
      (dataSeen : ∀ m, own.sound m → (Action.readRef data).outcome m = (.ok (ofPoint y), m)) :
      Of own (ofMatrix storage shape observed matrix data) A.toEuclideanLin y
  | subsampling {height width : Nat} (y : Point 𝕜 observed) {data : Ref (Tensor 𝕜)}
      (realNumbers : ∀ z : 𝕜, ((RCLike.re z : ℝ) : 𝕜) = z)
      (pixels : Shape.size shape = height * width)
      (counted : Shape.size observed = (height + 1) / 2 * ((width + 1) / 2))
      (dataSeen : ∀ m, own.sound m → (Action.readRef data).outcome m = (.ok (ofPoint y), m)) :
      Of own (ofSubsampling height width shape data)
        (selection (LinearOperator.everyOther height width)).toEuclideanLin y

theorem Of.represents (given : term.Of own A y) : term.Represents own A y := by
  cases given with
  | matrix storage A y matrixSeen dataSeen =>
    exact represents_ofMatrix storage A y matrixSeen dataSeen
  | subsampling y realNumbers pixels counted dataSeen =>
    exact represents_ofSubsampling realNumbers pixels counted y dataSeen

/-- The evaluations of a least-squares term agree, and the gradient that they write is exact: with
it the misfit is, at every other point, its linear approximation plus half the squared length of the
image of the difference. Hence the misfit is not negative and convex, and its gradient is as
Lipschitz as the operator is bounded. -/
theorem evaluations_are_exact (given : term.Of own A y) :
    term.term.Agrees own (misfitAt A y) (gradientAt A y) ∧
      (∀ x d, misfitAt A y (x + d) =
        misfitAt A y x + RCLike.re (inner 𝕜 (gradientAt A y x) d) + 1 / 2 * ‖A d‖ ^ 2) ∧
      (∀ x, 0 ≤ misfitAt A y x) ∧ ConvexOn ℝ Set.univ (misfitAt A y) ∧
      ∀ C : ℝ, (∀ d, ‖A d‖ ^ 2 ≤ C * ‖d‖ ^ 2) →
        ∀ u v, ‖gradientAt A y u - gradientAt A y v‖ ≤ C * ‖u - v‖ := by
  refine ⟨given.represents.agrees, misfitAt_add A y, misfitAt_nonneg A y, convexOn_misfitAt A y,
    fun C bound u v => ?_⟩
  rw [gradientAt_sub]
  exact norm_adjoint_apply_le bound (u - v)

/-- A complex matrix, and an image of three rows and two columns under another shape. -/
theorem small_evaluations_are_exact :
    (let A : Matrix (Fin (Shape.size [2])) (Fin (Shape.size [2, 1])) ℂ := !![Complex.I, 0; 1, 2]
      let y : Point ℂ [2] := WithLp.toLp 2 ![1, Complex.I]
      let x : Point ℂ [2, 1] := WithLp.toLp 2 ![3, -Complex.I]
      let f := ofMatrix .sparse [2, 1] [2] (.const (Exact.ofMatrix A)) (.const (ofPoint y))
      ∃ m', (f.term.valueAndGradient (.cell ⟨0⟩) ⟨0⟩).outcome { cells := #[ofPoint x] } =
          (.ok (real (misfitAt A.toEuclideanLin y x)), m') ∧
        (f.term.gradient (.cell ⟨0⟩) ⟨0⟩).outcome { cells := #[ofPoint x] } = (.ok (), m') ∧
        m'.content ⟨0⟩ = some (ofPoint (gradientAt A.toEuclideanLin y x))) ∧
    (let y : Point ℝ [2, 1] := WithLp.toLp 2 ![1, 2]
      let x : Point ℝ [6] := WithLp.toLp 2 ![3, 1, 4, 1, 5, 9]
      let f := ofSubsampling 3 2 [6] (.const (ofPoint y))
      let T : Point ℝ [6] →ₗ[ℝ] Point ℝ [2, 1] :=
        (selection (LinearOperator.everyOther 3 2)).toEuclideanLin
      (f.term.call (.const (ofPoint x))).outcome {} = (.ok (real (misfitAt T y x)), {}) ∧
        ∀ d, misfitAt T y (x + d) =
          misfitAt T y x + inner ℝ (gradientAt T y x) d + 1 / 2 * ‖T d‖ ^ 2) := by
  constructor
  · intro A y x f
    have given : f.Of .nothing A.toEuclideanLin y :=
      .matrix .sparse A y (fun m _ => Action.outcome_readRef_const _ m)
        fun m _ => Action.outcome_readRef_const _ m
    have seen : (Action.readRef (.cell ⟨0⟩)).outcome { cells := #[ofPoint x] } =
        (.ok (ofPoint x), { cells := #[ofPoint x] }) := Action.outcome_readRef_cell rfl
    obtain ⟨agrees, _⟩ := evaluations_are_exact given
    obtain ⟨m', evaluated, without⟩ :=
      agrees.written trivial seen (Set.notMem_empty (⟨0⟩ : Cell)) (by rfl)
    exact ⟨m', evaluated.outcome, without, evaluated.written⟩
  · intro y x f T
    have given : f.Of .nothing T y :=
      .subsampling y (fun _ => rfl) rfl rfl fun m _ => Action.outcome_readRef_const _ m
    obtain ⟨agrees, expanded, _⟩ := evaluations_are_exact given
    exact ⟨(agrees.valued trivial (Action.outcome_readRef_const _ _)).2, expanded x⟩

end LeastSquares

end ProxGrad
