import ProxGrad.Proofs.Exact.LeastSquares

/-!
# Subsampling

An operator that picks entries is a matrix with a one in each row. Its adjoint puts the entries back
to their places, with zeros elsewhere. The pixels in every other row and column of an image are such
a choice, for sides of any parity.
-/

set_option autoImplicit false

namespace ProxGrad

namespace LinearOperator

theorem mem_everyOther_iff {height width k : Nat} :
    k ∈ everyOther height width ↔
      ∃ i j, 2 * i < height ∧ 2 * j < width ∧ k = 2 * i * width + 2 * j := by
  have half (n i : Nat) : i < (n + 1) / 2 ↔ 2 * i < n := by omega
  simp only [everyOther, List.mem_flatMap, List.mem_map, List.mem_range, half]
  constructor
  · rintro ⟨i, row, j, column, rfl⟩
    exact ⟨i, j, row, column, rfl⟩
  · rintro ⟨i, j, row, column, rfl⟩
    exact ⟨i, row, j, column, rfl⟩

theorem length_everyOther (height width : Nat) :
    (everyOther height width).length = (height + 1) / 2 * ((width + 1) / 2) := by
  rw [everyOther, length_flatMap_of_forall _ fun i _ => by rw [List.length_map, List.length_range],
    List.length_range]

theorem pixel_lt {row row' column column' width : Nat} (inside : column < width)
    (above : row < row') : row * width + column < row' * width + column' := by
  have next : (row + 1) * width ≤ row' * width := Nat.mul_le_mul_right width above
  rw [Nat.succ_mul] at next
  omega

theorem lt_of_mem_everyOther {height width k : Nat} (kept : k ∈ everyOther height width) :
    k < height * width := by
  obtain ⟨i, j, row, column, rfl⟩ := mem_everyOther_iff.mp kept
  have before : 2 * i * width + 2 * j < height * width + 0 := pixel_lt column row
  exact before

theorem nodup_everyOther (height width : Nat) : (everyOther height width).Nodup := by
  have increasing : (everyOther height width).Pairwise (· < ·) := by
    refine List.pairwise_flatMap.mpr ⟨fun i _ => ?_, ?_⟩
    · refine List.pairwise_map.mpr (List.pairwise_lt_range.imp fun before => ?_)
      omega
    · refine List.pairwise_lt_range.imp fun {i i'} above k first k' second => ?_
      obtain ⟨j, within, rfl⟩ := List.mem_map.mp first
      obtain ⟨j', _, rfl⟩ := List.mem_map.mp second
      have column := List.mem_range.mp within
      exact pixel_lt (by omega) (by omega)
  exact increasing.imp Nat.ne_of_lt

end LinearOperator

namespace Exact

section Storing

variable {α : Type} [AddMonoid α]

/-- Storing numbers at distinct places that hold zeros adds to each place what is stored there. -/
theorem getD_foldl_set {stores : List (Nat × α)} (distinct : (stores.map Prod.fst).Nodup)
    {xs : List α} (free : ∀ k ∈ stores.map Prod.fst, xs.getD k 0 = 0) {j : Nat}
    (bound : j < xs.length) :
    (stores.foldl (fun xs (i, z) => xs.set i z) xs).getD j 0 =
      xs.getD j 0 + (stores.map fun store => if store.1 = j then store.2 else 0).sum := by
  induction stores generalizing xs with
  | nil => simp
  | cons store stores ih =>
    obtain ⟨i, z⟩ := store
    obtain ⟨fresh, distinct⟩ := List.nodup_cons.mp distinct
    have kept {k : Nat} (different : i ≠ k) : (xs.set i z).getD k 0 = xs.getD k 0 := by
      simp [List.getD_eq_getElem?_getD, different]
    have vacant : ∀ k ∈ stores.map Prod.fst, (xs.set i z).getD k 0 = 0 := by
      intro k member
      rw [kept fun same => fresh (same ▸ member)]
      exact free k (List.mem_cons_of_mem _ member)
    have rest := ih distinct vacant (by simpa using bound)
    rw [List.foldl_cons, rest, List.map_cons, List.sum_cons]
    by_cases here : i = j
    · subst here
      have zero : xs.getD i 0 = 0 := free i List.mem_cons_self
      have stored : (xs.set i z).getD i 0 = z := by
        simp [List.getD_eq_getElem?_getD, bound]
      rw [zero, stored, if_pos rfl, zero_add]
    · rw [kept here, if_neg here, zero_add]

omit [AddMonoid α] in
theorem length_foldl_set (stores : List (Nat × α)) (xs : List α) :
    (stores.foldl (fun xs (i, z) => xs.set i z) xs).length = xs.length := by
  induction stores generalizing xs with
  | nil => rfl
  | cons store stores ih => rw [List.foldl_cons, ih, List.length_set]

end Storing

variable {𝕜 : Type} [RCLike 𝕜] {shape observed : List Nat}

/-- The matrix whose rows have a one each, in the column that is listed for the row. -/
def selection (indices : List Nat) {rows columns : Nat} : Matrix (Fin rows) (Fin columns) 𝕜 :=
  fun i j => if indices[(i : Nat)]? = some (j : Nat) then 1 else 0

variable {indices : List Nat}

theorem selection_apply (p : Point 𝕜 shape) {i : Fin (Shape.size observed)}
    {j : Fin (Shape.size shape)} (listed : indices[(i : Nat)]? = some (j : Nat)) :
    ((selection indices).toEuclideanLin p : Point 𝕜 observed) i = p j := by
  change ∑ k, selection indices i k * p k = _
  simp only [selection, listed, Option.some.injEq, ite_mul, one_mul, zero_mul]
  rw [Finset.sum_eq_single j]
  · exact if_pos rfl
  · intro k _ different
    exact if_neg fun same => different (Fin.ext same.symm)
  · exact fun absent => absurd (Finset.mem_univ _) absent

theorem pick_flatten_ofPoint (counted : indices.length = Shape.size observed)
    (inside : ∀ k ∈ indices, k < Shape.size shape) (p : Point 𝕜 shape) :
    Calculus.pick (Shape.size shape) indices (ofPoint p).flatten =
      .ok (ofPoint ((selection indices).toEuclideanLin p : Point 𝕜 observed)).flatten := by
  have entries : (indices.map fun i => (List.ofFn fun j => p j).getD i 0) =
      List.ofFn fun i => ((selection indices).toEuclideanLin p : Point 𝕜 observed) i := by
    apply List.ext_getElem
    · simp [counted]
    · intro i before after
      have bound : i < indices.length := by simpa using before
      have column : indices[i] < Shape.size shape := inside _ (List.getElem_mem bound)
      rw [List.getElem_ofFn, selection_apply p (j := ⟨indices[i], column⟩) (by simp [bound])]
      simp [List.getD_eq_getElem?_getD, column]
  change pick _ _ _ = _
  rw [pick, if_pos (shape_flatten_ofPoint p)]
  exact congrArg (fun xs => Except.ok (Tensor.ofList xs)) entries

/-- Among real numbers, placing entries at distinct indices is the adjoint of picking them. -/
theorem place_flatten_ofPoint (counted : indices.length = Shape.size observed)
    (distinct : indices.Nodup) (realNumbers : ∀ z : 𝕜, ((RCLike.re z : ℝ) : 𝕜) = z)
    (q : Point 𝕜 observed) :
    Calculus.place (Shape.size shape) indices (ofPoint q).flatten =
      .ok (ofPoint ((selection indices).toEuclideanLin.adjoint q : Point 𝕜 shape)).flatten := by
  have firsts : (indices.zip (List.ofFn fun i => q i)).map Prod.fst = indices :=
    List.map_fst_zip (by simp [counted])
  have stored (j : Nat) : ((indices.zip (List.ofFn fun i => q i)).map fun store =>
      if store.1 = j then store.2 else 0) = List.ofFn fun i : Fin (Shape.size observed) =>
        if indices[(i : Nat)]? = some j then q i else 0 := by
    apply List.ext_getElem
    · simp [counted]
    · intro i before after
      have bound : i < indices.length := by simpa [counted] using after
      simp [bound]
  have entries : (indices.zip (List.ofFn fun i => q i)).foldl (fun xs (i, z) => xs.set i z)
        (List.replicate (Shape.size shape) 0) =
      List.ofFn fun j =>
        ((selection indices).conjTranspose.toEuclideanLin q : Point 𝕜 shape) j := by
    apply List.ext_getElem
    · rw [length_foldl_set]
      simp
    · intro j before after
      have bound : j < Shape.size shape := by simpa using after
      have zero (k : Nat) : (List.replicate (Shape.size shape) (0 : 𝕜)).getD k 0 = 0 := by
        simp [List.getD_eq_getElem?_getD]
      have summed := getD_foldl_set (firsts.symm ▸ distinct) (fun k _ => zero k)
        (by simpa using bound : j < _)
      -- The sum of what is stored at `j` is a row of the conjugate transpose times `q`.
      rw [stored, List.sum_ofFn, zero, zero_add, List.getD_eq_getElem _ _ before] at summed
      rw [summed, List.getElem_ofFn]
      refine Finset.sum_congr rfl fun i _ => ?_
      simp [selection, Matrix.conjTranspose_apply]
  change place _ _ _ = _
  rw [place, if_pos (by rw [shape_flatten_ofPoint, counted]),
    ← Matrix.toEuclideanLin_conjTranspose_eq_adjoint]
  simp only [realNumbers]
  exact congrArg (fun xs => Except.ok (Tensor.ofList xs)) entries

end Exact

namespace LeastSquares

open Exact

variable {𝕜 : Type} [RCLike 𝕜] {shape observed : List Nat} {own : TermState (Tensor 𝕜)}
  {height width : Nat}

/-- The term that observes every other row and column of an image, for points of a shape with as
many entries. -/
noncomputable def ofSubsampling (height width : Nat) (shape : List Nat) (data : Ref (Tensor 𝕜)) :
    LeastSquares (Tensor 𝕜) where
  operator := .subsample height width
  observed := data
  shaped g := match g.reshape? shape with
    | some g => .ok g
    | none => .error .shapes

theorem represents_ofSubsampling (realNumbers : ∀ z : 𝕜, ((RCLike.re z : ℝ) : 𝕜) = z)
    (pixels : Shape.size shape = height * width)
    (counted : Shape.size observed = (height + 1) / 2 * ((width + 1) / 2)) (y : Point 𝕜 observed)
    {data : Ref (Tensor 𝕜)}
    (dataSeen : ∀ m, own.sound m → (Action.readRef data).outcome m = (.ok (ofPoint y), m)) :
    (ofSubsampling height width shape data).Represents own
      ((selection (LinearOperator.everyOther height width)).toEuclideanLin :
        Point 𝕜 shape →ₗ[𝕜] Point 𝕜 observed) y where
  apply := by
    intro m p sound
    change (Action.lift (Calculus.pick (height * width) _ _)).outcome m = _
    rw [← pixels, pick_flatten_ofPoint
      ((LinearOperator.length_everyOther height width).trans counted.symm)
      fun k kept => pixels ▸ LinearOperator.lt_of_mem_everyOther kept]
    rfl
  adjoint := by
    intro m q sound
    change (Action.lift (Calculus.place (height * width) _ _)).outcome m = _
    rw [← pixels, place_flatten_ofPoint
      ((LinearOperator.length_everyOther height width).trans counted.symm)
      (LinearOperator.nodup_everyOther height width) realNumbers]
    rfl
  observed := fun sound => dataSeen _ sound
  shaped := by
    intro p
    simp only [ofSubsampling, reshape?_flatten_ofPoint]

end LeastSquares

end ProxGrad
