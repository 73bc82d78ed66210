import ProxGrad.Proofs.Exact.Lasso

/-!
# Flattening

The points of a shape and the flat vectors with the same entries are one Euclidean space. A
least-squares misfit sees its points through their entries in one row only, and so does a term whose
proximal map acts on every entry alone: on flat vectors they compute the same, and what they compute
for a shape is that, brought to the shape.
-/

set_option autoImplicit false

namespace ProxGrad

namespace Exact

variable {𝕜 : Type} [RCLike 𝕜] {shape observed : List Nat}

theorem size_singleton (n : Nat) : Shape.size [n] = n :=
  Nat.mul_one n

/-- The flat vector with the entries of a point. -/
noncomputable def flat : Point 𝕜 shape ≃ₗᵢ[𝕜] Point 𝕜 [Shape.size shape] :=
  LinearIsometryEquiv.piLpCongrLeft 2 𝕜 𝕜 (finCongr (size_singleton _).symm)

theorem ofPoint_flat (p : Point 𝕜 shape) : ofPoint (flat p) = (ofPoint p).flatten := by
  refine Tensor.ext_of (shape_flatten_ofPoint p).symm ?_
  exact (List.ofFn_congr (size_singleton _).symm fun i => p i).symm

theorem reshape?_ofPoint_flat (p : Point 𝕜 shape) :
    (ofPoint (flat p)).reshape? shape = some (ofPoint p) := by
  rw [ofPoint_flat, reshape?_flatten_ofPoint]

theorem flatten_ofPoint_flat (p : Point 𝕜 shape) :
    (ofPoint (flat p)).flatten = (ofPoint p).flatten := by
  rw [ofPoint_flat]
  rfl

/-- A linear map as it acts on flat vectors. -/
noncomputable def flatMap (A : Point 𝕜 shape →ₗ[𝕜] Point 𝕜 observed) :
    Point 𝕜 [Shape.size shape] →ₗ[𝕜] Point 𝕜 [Shape.size observed] :=
  flat.toLinearEquiv.toLinearMap ∘ₗ A ∘ₗ flat.symm.toLinearEquiv.toLinearMap

theorem flatMap_flat (A : Point 𝕜 shape →ₗ[𝕜] Point 𝕜 observed) (p : Point 𝕜 shape) :
    flatMap A (flat p) = flat (A p) := by
  simp [flatMap]

/-- The adjoint on flat vectors is the adjoint, because flattening is an isometry. -/
theorem adjoint_flatMap (A : Point 𝕜 shape →ₗ[𝕜] Point 𝕜 observed) :
    (flatMap A).adjoint = flatMap A.adjoint := by
  rw [flatMap, LinearMap.adjoint_comp, LinearMap.adjoint_comp,
    LinearIsometryEquiv.adjoint_toLinearMap_eq_symm,
    LinearIsometryEquiv.adjoint_toLinearMap_eq_symm]
  rfl

end Exact

open Exact

variable {𝕜 : Type} [RCLike 𝕜] {shape observed : List Nat} {own : TermState (Tensor 𝕜)}

/-! ## The misfit -/

namespace LeastSquares

variable (A : Point 𝕜 shape →ₗ[𝕜] Point 𝕜 observed) (y : Point 𝕜 observed)

theorem misfitAt_flat (x : Point 𝕜 shape) :
    misfitAt (flatMap A) (flat y) (flat x) = misfitAt A y x := by
  rw [misfitAt, misfitAt, flatMap_flat, ← map_sub, LinearIsometryEquiv.norm_map]

theorem gradientAt_flat (x : Point 𝕜 shape) :
    gradientAt (flatMap A) (flat y) (flat x) = flat (gradientAt A y x) := by
  rw [gradientAt, gradientAt, flatMap_flat, ← map_sub, adjoint_flatMap, flatMap_flat]

variable {A y} {term flatTerm : LeastSquares (Tensor 𝕜)}

/-- The same operator on flattened data, for flat vectors, acts as the same linear map. -/
theorem Represents.flattened (represents : term.Represents own A y)
    (operator : flatTerm.operator = term.operator)
    (observed : ∀ m, own.sound m →
      (Action.readRef flatTerm.observed).outcome m = (.ok (ofPoint y).flatten, m))
    (shaped : ∀ p : Point 𝕜 [Shape.size shape], flatTerm.shaped (ofPoint p).flatten =
      .ok (ofPoint p)) : flatTerm.Represents own (flatMap A) (flat y) where
  apply := by
    intro m p sound
    obtain ⟨p, rfl⟩ := flat.surjective p
    rw [operator, flatMap_flat, flatten_ofPoint_flat, flatten_ofPoint_flat]
    exact represents.apply p sound
  adjoint := by
    intro m q sound
    obtain ⟨q, rfl⟩ := flat.surjective q
    rw [operator, adjoint_flatMap, flatMap_flat, flatten_ofPoint_flat, flatten_ofPoint_flat]
    exact represents.adjoint q sound
  observed := by
    intro m sound
    rw [ofPoint_flat]
    exact observed m sound
  shaped := shaped

end LeastSquares

/-- References to a matrix, to data and to the same data in one row, for as long as the terms' state
is sound. -/
structure MisfitArrays (own : TermState (Tensor 𝕜)) (matrix data flatData : Ref (Tensor 𝕜))
    (A : Matrix (Fin (Shape.size observed)) (Fin (Shape.size shape)) 𝕜) (y : Point 𝕜 observed) :
    Prop where
  matrix (m : Memory (Tensor 𝕜)) : own.sound m →
    (Action.readRef matrix).outcome m = (.ok (ofMatrix A), m)
  data (m : Memory (Tensor 𝕜)) : own.sound m →
    (Action.readRef data).outcome m = (.ok (ofPoint y), m)
  flatData (m : Memory (Tensor 𝕜)) : own.sound m →
    (Action.readRef flatData).outcome m = (.ok (ofPoint y).flatten, m)

namespace MisfitArrays

variable {matrix data flatData : Ref (Tensor 𝕜)} {y : Point 𝕜 observed}
  {A : Matrix (Fin (Shape.size observed)) (Fin (Shape.size shape)) 𝕜}

theorem represents (arrays : MisfitArrays own matrix data flatData A y) (storage : Storage) :
    (LeastSquares.ofMatrix storage shape observed matrix data).Represents own A.toEuclideanLin y :=
  LeastSquares.represents_ofMatrix storage A y arrays.matrix arrays.data

theorem flatRepresents (arrays : MisfitArrays own matrix data flatData A y) (storage : Storage) :
    (LeastSquares.ofMatrix storage [Shape.size shape] [Shape.size observed] matrix
      flatData).Represents own (flatMap A.toEuclideanLin) (flat y) := by
  refine (arrays.represents storage).flattened ?_ arrays.flatData fun p => ?_
  · simp only [LeastSquares.ofMatrix, size_singleton]
  · simp only [LeastSquares.ofMatrix, reshape?_flatten_ofPoint]

end MisfitArrays

/-! ## Proximal maps of single entries -/

/-- A function of an entry and a step, at every entry of a point. -/
def Exact.onEntries (φ : 𝕜 → ℝ → 𝕜) (y : Point 𝕜 shape) (step : ℝ) : Point 𝕜 shape :=
  WithLp.toLp 2 fun i => φ (y i) step

theorem Exact.onEntries_flat (φ : 𝕜 → ℝ → 𝕜) (y : Point 𝕜 shape) (step : ℝ) :
    onEntries φ (flat y) step = flat (onEntries φ y step) := rfl

/-- A proximal term that acts on every entry alone, whatever the shape of the point. -/
def ProximalTerm.Entrywise (term : ProximalTerm (Tensor 𝕜)) (own : TermState (Tensor 𝕜))
    (φ : 𝕜 → ℝ → 𝕜) : Prop :=
  ∀ shape, term.Computes own (onEntries φ : Point 𝕜 shape → ℝ → Point 𝕜 shape)

/-- The weighted sum of magnitudes shrinks every entry. -/
theorem Terms.l1_entrywise {own : TermState (Tensor ℝ)} {weight : Ref (Tensor ℝ)} {lam : ℝ}
    (seen : ∀ m, own.sound m → (Action.readRef weight).outcome m = (.ok (real lam), m)) :
    (Terms.l1 weight).Entrywise own fun z step => shrink (step * lam) z :=
  fun _ => Terms.l1_computes seen

end ProxGrad
