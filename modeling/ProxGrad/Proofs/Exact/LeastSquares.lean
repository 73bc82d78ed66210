import Mathlib
import ProxGrad.Proofs.Exact.Objective
import ProxGrad.Terms.LeastSquares

/-!
# The exact least-squares misfit

Flat vectors are the points of any shape laid out in one row. A least-squares term whose operator
acts on them as a linear map computes the misfit of that map, and the products with a matrix are
such an operator.
-/

set_option autoImplicit false

namespace ProxGrad

namespace Exact

section Vectors

variable {𝕜 : Type} {shape : List Nat}

theorem flatten_ofPoint (p : Point 𝕜 shape) :
    (ofPoint p).flatten = Tensor.ofList (List.ofFn fun i => p i) := rfl

@[simp] theorem size_flatten_ofPoint (p : Point 𝕜 shape) :
    (ofPoint p).flatten.size = Shape.size shape := by
  rw [Tensor.size, flatten_ofPoint, Tensor.ofList, List.length_ofFn]

theorem shape_flatten_ofPoint (p : Point 𝕜 shape) :
    (ofPoint p).flatten.shape = [Shape.size shape] :=
  congrArg (fun n => [n]) List.length_ofFn

theorem reshape?_flatten_ofPoint (p : Point 𝕜 shape) :
    (ofPoint p).flatten.reshape? shape = some (ofPoint p) := by
  have fits : (List.ofFn fun i => p i).length = Shape.size shape := List.length_ofFn
  exact dif_pos fits

variable [RCLike 𝕜]

theorem sub_flatten_ofPoint (p q : Point 𝕜 shape) :
    Calculus.sub (ofPoint p).flatten (ofPoint q).flatten = .ok (ofPoint (p - q)).flatten := by
  have same : (ofPoint p).flatten.shape = (ofPoint q).flatten.shape := by
    rw [shape_flatten_ofPoint, shape_flatten_ofPoint]
  have entries : (List.ofFn fun i => p i).zipWith (· - ·) (List.ofFn fun i => q i) =
      List.ofFn fun i => (p - q) i := by
    apply List.ext_getElem <;> simp
  change entrywise (· - ·) (ofPoint p).flatten (ofPoint q).flatten = _
  rw [entrywise, Tensor.zipWith?_of_shape_eq _ same]
  refine congrArg Except.ok (Tensor.ext_of ?_ entries)
  rw [shape_flatten_ofPoint, shape_flatten_ofPoint]

theorem dot_ofFn {n : Nat} (f g : Fin n → 𝕜) :
    dot (List.ofFn f) (List.ofFn g) = ∑ i, f i * g i := by
  have zipped : (List.ofFn f).zipWith (· * ·) (List.ofFn g) = List.ofFn fun i => f i * g i := by
    apply List.ext_getElem <;> simp
  rw [dot, zipped, List.sum_ofFn]

theorem inner_flatten_ofPoint (p q : Point 𝕜 shape) :
    Calculus.inner (ofPoint p).flatten (ofPoint q).flatten =
      .ok (real (RCLike.re (inner 𝕜 p q))) := by
  have products :
      dot ((List.ofFn fun i => p i).map star) (List.ofFn fun i => q i) = inner 𝕜 p q := by
    rw [List.map_ofFn, dot_ofFn, PiLp.inner_apply]
    refine Finset.sum_congr rfl fun i _ => ?_
    rw [RCLike.inner_apply, mul_comm]
    rfl
  rw [← products]
  exact if_pos (by rw [size_flatten_ofPoint, size_flatten_ofPoint])

end Vectors

variable {𝕜 : Type} {rows columns : Nat}

/-- The array of a matrix, row after row. -/
def ofMatrix (A : Matrix (Fin rows) (Fin columns) 𝕜) : Tensor 𝕜 where
  shape := [rows, columns]
  entries := (List.ofFn fun i => List.ofFn (A i)).flatten
  length_entries := by simp [Shape.size, List.sum_ofFn]

theorem pieces_flatten {α : Type} {width : Nat} {xss : List (List α)}
    (widths : ∀ xs ∈ xss, xs.length = width) : pieces width xss.length xss.flatten = xss := by
  induction xss with
  | nil => rfl
  | cons xs xss ih =>
      have first : xs.length = width := widths xs (by simp)
      have rest := ih fun ys member => widths ys (by simp [member])
      simp [pieces, ← first, List.take_left', List.drop_left', first ▸ rest]

theorem rows_ofMatrix (A : Matrix (Fin rows) (Fin columns) 𝕜) :
    Exact.rows rows columns (ofMatrix A) = List.ofFn fun i => List.ofFn (A i) := by
  have widths : ∀ xs ∈ List.ofFn fun i => List.ofFn (A i), xs.length = columns := by
    intro xs member
    obtain ⟨i, rfl⟩ := (List.mem_ofFn' _ _).mp member
    exact List.length_ofFn
  have split := pieces_flatten widths
  rwa [List.length_ofFn] at split

variable [RCLike 𝕜] {shape observed : List Nat}
  (A : Matrix (Fin (Shape.size observed)) (Fin (Shape.size shape)) 𝕜)

theorem matVec_ofMatrix (storage : Storage) (p : Point 𝕜 shape) :
    Calculus.matVec storage (Shape.size observed) (Shape.size shape) (ofMatrix A)
        (ofPoint p).flatten =
      .ok (ofPoint (A.toEuclideanLin p : Point 𝕜 observed)).flatten := by
  have products : (List.ofFn fun i => List.ofFn (A i)).map (dot · (List.ofFn fun j => p j)) =
      List.ofFn fun i => A.toEuclideanLin p i := by
    rw [List.map_ofFn]
    exact congrArg List.ofFn (funext fun i => dot_ofFn (A i) fun j => p j)
  change matVec _ _ _ _ = _
  rw [matVec, if_pos ⟨rfl, shape_flatten_ofPoint p⟩, rows_ofMatrix]
  exact congrArg (fun xs => Except.ok (Tensor.ofList xs)) products

theorem adjointVec_ofMatrix (storage : Storage) (q : Point 𝕜 observed) :
    Calculus.adjointVec storage (Shape.size observed) (Shape.size shape) (ofMatrix A)
        (ofPoint q).flatten =
      .ok (ofPoint (A.toEuclideanLin.adjoint q : Point 𝕜 shape)).flatten := by
  have products : ((List.range (Shape.size shape)).map fun j =>
      dot ((List.ofFn fun i => List.ofFn (A i)).map fun row => star (row.getD j 0))
        (List.ofFn fun i => q i)) =
      List.ofFn fun j => A.conjTranspose.toEuclideanLin q j := by
    apply List.ext_getElem
    · simp
    · intro j before after
      have bound : j < Shape.size shape := by simpa using after
      simp only [List.getElem_map, List.getElem_range, List.map_ofFn, List.getElem_ofFn]
      exact (dot_ofFn _ _).trans (by simp [bound, Matrix.toLpLin_apply, Matrix.mulVec,
        dotProduct, Matrix.conjTranspose_apply])
  change adjointVec _ _ _ _ = _
  rw [adjointVec, if_pos ⟨rfl, shape_flatten_ofPoint q⟩, rows_ofMatrix,
    ← Matrix.toEuclideanLin_conjTranspose_eq_adjoint]
  exact congrArg (fun xs => Except.ok (Tensor.ofList xs)) products

end Exact

open Exact

variable {𝕜 : Type} [RCLike 𝕜] {shape observed : List Nat}

/-- A least-squares term whose operator acts as a linear map, on data that do not change. -/
structure LeastSquares.Represents (term : LeastSquares (Tensor 𝕜)) (own : TermState (Tensor 𝕜))
    (A : Point 𝕜 shape →ₗ[𝕜] Point 𝕜 observed) (y : Point 𝕜 observed) : Prop where
  apply {m : Memory (Tensor 𝕜)} (p : Point 𝕜 shape) : own.sound m →
    (term.operator.apply (ofPoint p).flatten).outcome m = (.ok (ofPoint (A p)).flatten, m)
  adjoint {m : Memory (Tensor 𝕜)} (q : Point 𝕜 observed) : own.sound m →
    (term.operator.adjoint (ofPoint q).flatten).outcome m = (.ok (ofPoint (A.adjoint q)).flatten, m)
  observed {m : Memory (Tensor 𝕜)} : own.sound m →
    (Action.readRef term.observed).outcome m = (.ok (ofPoint y), m)
  shaped (p : Point 𝕜 shape) : term.shaped (ofPoint p).flatten = .ok (ofPoint p)

namespace LeastSquares

/-- The misfit `½ ‖A x - y‖²`. -/
noncomputable def misfitAt (A : Point 𝕜 shape →ₗ[𝕜] Point 𝕜 observed) (y : Point 𝕜 observed)
    (x : Point 𝕜 shape) : ℝ :=
  1 / 2 * ‖A x - y‖ ^ 2

noncomputable def gradientAt (A : Point 𝕜 shape →ₗ[𝕜] Point 𝕜 observed) (y : Point 𝕜 observed)
    (x : Point 𝕜 shape) : Point 𝕜 shape :=
  A.adjoint (A x - y)

variable {term : LeastSquares (Tensor 𝕜)} {own : TermState (Tensor 𝕜)}
  {A : Point 𝕜 shape →ₗ[𝕜] Point 𝕜 observed} {y : Point 𝕜 observed} {m : Memory (Tensor 𝕜)}

theorem Represents.outcome_residual (represents : term.Represents own A y) (sound : own.sound m)
    {x : Ref (Tensor 𝕜)} {p : Point 𝕜 shape}
    (seen : (Action.readRef x).outcome m = (.ok (ofPoint p), m)) :
    (term.residual x).outcome m = (.ok (ofPoint (A p - y)).flatten, m) := by
  have flat (t : Tensor 𝕜) : Calculus.flatten t = .ok t.flatten := rfl
  rw [residual, Action.outcome_bind_of_ok seen, flat,
    Action.outcome_bind_of_ok (Action.outcome_lift _ m),
    Action.outcome_bind_of_ok (represents.apply p sound),
    Action.outcome_bind_of_ok (represents.observed sound), flat,
    Action.outcome_bind_of_ok (Action.outcome_lift _ m), sub_flatten_ofPoint]
  rfl

theorem oneHalf_eq_real : (Terms.oneHalf : Tensor 𝕜) = real (1 / 2) := by
  rw [Terms.oneHalf, ofDecimal_eq_real]
  norm_num

theorem misfit_flatten_ofPoint (r : Point 𝕜 observed) :
    misfit (ofPoint r).flatten = .ok (real (1 / 2 * ‖r‖ ^ 2)) := by
  simp only [misfit, inner_flatten_ofPoint, oneHalf_eq_real, bind, Except.bind, mul_real,
    inner_self_eq_norm_sq]

theorem Represents.outcome_storeGradient (represents : term.Represents own A y)
    (sound : own.sound m) (r : Point 𝕜 observed) {out : Cell} {old : Point 𝕜 shape}
    (foreign : out ∉ own.cells) (held : m.content out = some (ofPoint old)) :
    Overwrites own out (A.adjoint r) () (term.storeGradient (ofPoint r).flatten out) m
      (m.put out (ofPoint (A.adjoint r))) := by
  obtain ⟨stored, written, sound', kept⟩ := overwrites_store sound foreign held (A.adjoint r)
  refine ⟨?_, written, sound', kept⟩
  rw [storeGradient, Action.outcome_bind_of_ok (represents.adjoint r sound), represents.shaped,
    Action.outcome_bind_of_ok (Action.outcome_lift _ m), stored]

/-- A least-squares term computes its misfit and the gradient of it. -/
theorem Represents.computes (represents : term.Represents own A y) :
    term.term.Computes own (misfitAt A y) (gradientAt A y) where
  gradient := by
    intro m x out p old _ _ foreign sound held destination
    have found := represents.outcome_residual sound (Action.outcome_readRef_cell held)
    obtain ⟨stored, written, sound', kept⟩ :=
      represents.outcome_storeGradient sound (A p - y) foreign destination
    exact ⟨_, (Action.outcome_bind_of_ok found).trans stored, written, sound', kept⟩
  valueAndGradient := by
    intro m x out p old _ _ foreign sound held destination
    have found := represents.outcome_residual sound (Action.outcome_readRef_cell held)
    obtain ⟨stored, written, sound', kept⟩ :=
      represents.outcome_storeGradient sound (A p - y) foreign destination
    refine ⟨_, ?_, written, sound', kept⟩
    refine (Action.outcome_bind_of_ok found).trans ((Action.outcome_bind_of_ok stored).trans ?_)
    rw [misfit_flatten_ofPoint]
    rfl

/-- The term of a matrix and data that are read from references, for points of a shape. -/
noncomputable def ofMatrix (storage : Storage) (shape observed : List Nat)
    (matrix data : Ref (Tensor 𝕜)) : LeastSquares (Tensor 𝕜) where
  operator := .ofMatrix storage (Shape.size observed) (Shape.size shape) matrix
  observed := data
  shaped g := match g.reshape? shape with
    | some g => .ok g
    | none => .error .shapes

/-- The products with a matrix are an operator that acts as its linear map. -/
theorem represents_ofMatrix (storage : Storage)
    (A : Matrix (Fin (Shape.size observed)) (Fin (Shape.size shape)) 𝕜) (y : Point 𝕜 observed)
    {matrix data : Ref (Tensor 𝕜)}
    (matrixSeen : ∀ m, own.sound m →
      (Action.readRef matrix).outcome m = (.ok (Exact.ofMatrix A), m))
    (dataSeen : ∀ m, own.sound m → (Action.readRef data).outcome m = (.ok (ofPoint y), m)) :
    (ofMatrix storage shape observed matrix data).Represents own A.toEuclideanLin y where
  apply := by
    intro m p sound
    change (LinearOperator.apply (.ofMatrix _ _ _ _) _).outcome m = _
    rw [LinearOperator.ofMatrix, Action.outcome_bind_of_ok (matrixSeen m sound),
      matVec_ofMatrix]
    rfl
  adjoint := by
    intro m q sound
    change (LinearOperator.adjoint (.ofMatrix _ _ _ _) _).outcome m = _
    rw [LinearOperator.ofMatrix, Action.outcome_bind_of_ok (matrixSeen m sound),
      adjointVec_ofMatrix]
    rfl
  observed := fun sound => dataSeen _ sound
  shaped := by
    intro p
    simp only [ofMatrix, reshape?_flatten_ofPoint]

end LeastSquares

end ProxGrad
