import ProxGrad.Proofs.Exact.LeastSquares
import ProxGrad.Proofs.Exact.SoftThreshold

/-!
# The LASSO objective

The least-squares misfit of a matrix plus the weighted sum of magnitudes, for points and data of any
shapes.
-/

set_option autoImplicit false

namespace ProxGrad

open Exact

variable {shape observed : List Nat} {own : TermState (Tensor ℝ)}

/-- The objective `½ ‖A x - y‖² + weight · ‖x‖₁` of arrays that are read whenever a term is
evaluated. -/
noncomputable def lassoOf (storage : Storage) (shape observed : List Nat)
    (matrix data weight : Ref (Tensor ℝ)) : Objective (Tensor ℝ) where
  smooth := (LeastSquares.ofMatrix storage shape observed matrix data).term
  proximal := Terms.l1 weight

/-- References that give a matrix, data and a weight for as long as the terms' state is sound. -/
structure LassoArrays (own : TermState (Tensor ℝ)) (matrix data weight : Ref (Tensor ℝ))
    (A : Matrix (Fin (Shape.size observed)) (Fin (Shape.size shape)) ℝ) (y : Point ℝ observed)
    (lam : ℝ) : Prop where
  matrix (m : Memory (Tensor ℝ)) : own.sound m →
    (Action.readRef matrix).outcome m = (.ok (ofMatrix A), m)
  data (m : Memory (Tensor ℝ)) : own.sound m →
    (Action.readRef data).outcome m = (.ok (ofPoint y), m)
  weight (m : Memory (Tensor ℝ)) : own.sound m →
    (Action.readRef weight).outcome m = (.ok (real lam), m)

theorem LassoArrays.const (A : Matrix (Fin (Shape.size observed)) (Fin (Shape.size shape)) ℝ)
    (y : Point ℝ observed) (lam : ℝ) :
    LassoArrays .nothing (.const (ofMatrix A)) (.const (ofPoint y)) (.const (real lam))
      A y lam where
  matrix m _ := Action.outcome_readRef_const _ m
  data m _ := Action.outcome_readRef_const _ m
  weight m _ := Action.outcome_readRef_const _ m

variable {matrix data weight : Ref (Tensor ℝ)} {y : Point ℝ observed} {lam : ℝ}
  {A : Matrix (Fin (Shape.size observed)) (Fin (Shape.size shape)) ℝ}

/-- The objective computes the misfit, its gradient and soft thresholding. -/
theorem LassoArrays.computes (arrays : LassoArrays own matrix data weight A y lam)
    (storage : Storage) :
    (lassoOf storage shape observed matrix data weight).Computes own
      (LeastSquares.misfitAt A.toEuclideanLin y) (LeastSquares.gradientAt A.toEuclideanLin y)
      (softThresholdAt lam) where
  smooth :=
    (LeastSquares.represents_ofMatrix storage A y arrays.matrix arrays.data).computes
  proximal := Terms.l1_computes arrays.weight

/-- The objective of a matrix, data and a weight that are given as they are. -/
noncomputable def lasso (A : Matrix (Fin (Shape.size observed)) (Fin (Shape.size shape)) ℝ)
    (y : Point ℝ observed) (weight : ℝ) : Objective (Tensor ℝ) where
  smooth := (LeastSquares.ofMatrix .dense shape observed (.const (ofMatrix A))
    (.const (ofPoint y))).term
  proximal := Terms.l1 (.const (real weight))

/-- It keeps nothing. -/
theorem lasso_computes (A : Matrix (Fin (Shape.size observed)) (Fin (Shape.size shape)) ℝ)
    (y : Point ℝ observed) (weight : ℝ) :
    (lasso A y weight).Computes .nothing (LeastSquares.misfitAt A.toEuclideanLin y)
      (LeastSquares.gradientAt A.toEuclideanLin y) (softThresholdAt weight) :=
  (LassoArrays.const A y weight).computes .dense

end ProxGrad
