import Mathlib.Analysis.InnerProductSpace.PiL2
import ProxGrad.Proofs.Exact.Calculus

/-!
# Points

The tensors of one shape are the points of a Euclidean space. The operations of the solver on them
are the vector operations of that space.
-/

set_option autoImplicit false

namespace ProxGrad

namespace Exact

variable {𝕜 : Type}

/-- The points of a shape: one coordinate for each index. -/
abbrev Point (𝕜 : Type) (shape : List Nat) : Type :=
  EuclideanSpace 𝕜 (Fin (Shape.size shape))

variable {shape : List Nat}

/-- The array of a point. -/
def ofPoint (p : Point 𝕜 shape) : Tensor 𝕜 :=
  ⟨shape, List.ofFn fun i => p i, List.length_ofFn⟩

@[simp] theorem shape_ofPoint (p : Point 𝕜 shape) : (ofPoint p).shape = shape := rfl

theorem ofPoint_injective : Function.Injective (ofPoint : Point 𝕜 shape → Tensor 𝕜) := by
  intro p q same
  have entries : (List.ofFn fun i => p i) = List.ofFn fun i => q i := congrArg Tensor.entries same
  exact PiLp.ext fun i => congrFun (List.ofFn_injective entries) i

theorem exists_eq_ofPoint {t : Tensor 𝕜} (shaped : t.shape = shape) :
    ∃ p : Point 𝕜 shape, t = ofPoint p := by
  subst shaped
  refine ⟨WithLp.toLp 2 fun i => t.entries.get (i.cast t.length_entries.symm), ?_⟩
  refine Tensor.ext_of rfl ?_
  apply List.ext_getElem
  · simp [ofPoint, t.length_entries]
  · intro i before after
    simp [ofPoint]

theorem entrywise_ofPoint (f : 𝕜 → 𝕜 → 𝕜) (p q : Point 𝕜 shape) :
    entrywise f (ofPoint p) (ofPoint q) = .ok (ofPoint (WithLp.toLp 2 fun i => f (p i) (q i))) := by
  have zipped : (List.ofFn fun i => p i).zipWith f (List.ofFn fun i => q i) =
      List.ofFn fun i => f (p i) (q i) := by
    apply List.ext_getElem <;> simp
  rw [entrywise, Tensor.zipWith?_of_shape_eq f (a := ofPoint p) (b := ofPoint q) rfl]
  exact congrArg Except.ok (Tensor.ext_of rfl zipped)

theorem map_ofPoint (f : 𝕜 → 𝕜) (p : Point 𝕜 shape) :
    (ofPoint p).map f = ofPoint (WithLp.toLp 2 fun i => f (p i)) := by
  refine Tensor.ext_of rfl ?_
  simp [ofPoint, Tensor.map, Function.comp_def]

theorem scalar_entrywise_ofPoint (f : 𝕜 → 𝕜 → 𝕜) (z : 𝕜) (p : Point 𝕜 shape) :
    entrywise f (.scalar z) (ofPoint p) = .ok (ofPoint (WithLp.toLp 2 fun i => f z (p i))) := by
  rw [entrywise, Tensor.scalar_zipWith?]
  exact congrArg Except.ok (map_ofPoint (f z) p)

theorem entrywise_ofPoint_scalar (f : 𝕜 → 𝕜 → 𝕜) (p : Point 𝕜 shape) (z : 𝕜) :
    entrywise f (ofPoint p) (.scalar z) = .ok (ofPoint (WithLp.toLp 2 fun i => f (p i) z)) := by
  rw [entrywise, Tensor.zipWith?_scalar]
  exact congrArg Except.ok (map_ofPoint (f · z) p)

variable [RCLike 𝕜]

theorem add_ofPoint (p q : Point 𝕜 shape) :
    Calculus.add (ofPoint p) (ofPoint q) = .ok (ofPoint (p + q)) :=
  entrywise_ofPoint (· + ·) p q

theorem sub_ofPoint (p q : Point 𝕜 shape) :
    Calculus.sub (ofPoint p) (ofPoint q) = .ok (ofPoint (p - q)) :=
  entrywise_ofPoint (· - ·) p q

theorem mul_real_ofPoint (r : ℝ) (p : Point 𝕜 shape) :
    Calculus.mul (real r) (ofPoint p) = .ok (ofPoint (r • p)) := by
  have scaled : (WithLp.toLp 2 fun i => (r : 𝕜) * p i : Point 𝕜 shape) = r • p := by
    ext i
    simp [RCLike.real_smul_eq_coe_mul]
  rw [← scaled]
  exact scalar_entrywise_ofPoint (· * ·) (r : 𝕜) p

theorem mul_ofPoint_real (p : Point 𝕜 shape) (r : ℝ) :
    Calculus.mul (ofPoint p) (real r) = .ok (ofPoint (r • p)) := by
  have scaled : (WithLp.toLp 2 fun i => p i * (r : 𝕜) : Point 𝕜 shape) = r • p := by
    ext i
    simp [RCLike.real_smul_eq_coe_mul, mul_comm]
  rw [← scaled]
  exact entrywise_ofPoint_scalar (· * ·) p (r : 𝕜)

theorem div_ofPoint_real (p : Point 𝕜 shape) {r : ℝ} (nonzero : r ≠ 0) :
    Calculus.div (ofPoint p) (real r) = .ok (ofPoint (r⁻¹ • p)) := by
  have scaled : (WithLp.toLp 2 fun i => p i / (r : 𝕜) : Point 𝕜 shape) = r⁻¹ • p := by
    ext i
    simp [RCLike.real_smul_eq_coe_mul, div_eq_inv_mul]
  rw [div_of_ne_zero (zero_notMem_real nonzero), ← scaled]
  exact entrywise_ofPoint_scalar (· / ·) p (r : 𝕜)

theorem norm_ofPoint (p : Point 𝕜 shape) : Calculus.norm (ofPoint p) = .ok (real ‖p‖) := by
  have squares : ((List.ofFn fun i => p i).map fun z => ‖z‖ ^ 2).sum = ∑ i, ‖p i‖ ^ 2 := by
    rw [List.map_ofFn, List.sum_ofFn]
    rfl
  rw [EuclideanSpace.norm_eq, ← squares]
  rfl

theorem fresh_ofPoint (p : Point 𝕜 shape) :
    Calculus.fresh (ofPoint p) = .ok (.fill shape 0) := rfl

theorem store_of_shape_eq {destination source : Tensor 𝕜}
    (same : source.shape = destination.shape) :
    Calculus.store destination source = (source, .ok ()) := by
  have reshaped : Tensor.ofShape? (NDArray.dropOnes destination.shape.length source.shape)
      source.entries = some source := by
    rw [same, NDArray.dropOnes_length_self, ← same]
    simp [Tensor.ofShape?, source.length_entries]
  change store destination source = _
  simp only [store, reshaped, Option.bind_some, Tensor.broadcastTo?_of_shape_eq same]
  rw [Prod.mk.injEq]
  exact ⟨Tensor.ext_of same.symm rfl, rfl⟩

theorem store_ofPoint (p q : Point 𝕜 shape) :
    Calculus.store (ofPoint p) (ofPoint q) = (ofPoint q, .ok ()) :=
  store_of_shape_eq rfl

end Exact

end ProxGrad
