import ProxGrad.Numeric.NDArray

/-!
# Broadcasting without repetition

A tensor broadcast to its own shape stays as it is, and a number fills any shape. These are the two
cases that the solver meets: it combines arrays of one shape, and arrays with numbers.
-/

set_option autoImplicit false

namespace ProxGrad

theorem Shape.stretches_self (s : List Nat) : Shape.stretches s s = true := by
  induction s with
  | nil => rfl
  | cons n s ih => simp [Shape.stretches, ih]

theorem Shape.pad_length_self (s : List Nat) : Shape.pad s.length s = s := by
  simp [Shape.pad]

theorem Shape.pad_nil (rank : Nat) : Shape.pad rank [] = List.replicate rank 1 := by
  simp [Shape.pad]

theorem Shape.stretches_replicate_one (s : List Nat) :
    Shape.stretches (List.replicate s.length 1) s = true := by
  induction s with
  | nil => rfl
  | cons n s ih => simp [Shape.stretches, List.replicate_succ, ih]

private theorem mapM_eq_some_map {α β : Type} {f : α → Option β} {g : α → β} {xs : List α}
    (each : ∀ x ∈ xs, f x = some (g x)) : xs.mapM f = some (xs.map g) := by
  induction xs with
  | nil => rfl
  | cons x xs ih =>
      have rest : xs.mapM f = some (xs.map g) := ih fun y member => each y (by simp [member])
      rw [List.mapM_cons, each x (by simp), rest]
      rfl

theorem Shape.joinSide?_self (n : Nat) : Shape.joinSide? n n = some n := by
  simp [Shape.joinSide?]

theorem Shape.joinSide?_one_left (n : Nat) : Shape.joinSide? 1 n = some n := by
  by_cases one : 1 = n <;> simp [Shape.joinSide?, one]

theorem Shape.joinSide?_one_right (n : Nat) : Shape.joinSide? n 1 = some n := by
  by_cases one : n = 1 <;> simp [Shape.joinSide?, one]

theorem Shape.join?_self (s : List Nat) : Shape.join? s s = some s := by
  have each : ∀ p ∈ s.zip s, Shape.joinSide? p.1 p.2 = some p.1 := by
    rintro ⟨n, k⟩ member
    obtain ⟨i, bound, pair⟩ := List.mem_iff_getElem.mp member
    rw [List.getElem_zip] at pair
    cases pair
    exact Shape.joinSide?_self _
  simp only [Shape.join?, Nat.max_self, Shape.pad_length_self]
  rw [mapM_eq_some_map each, List.map_fst_zip (Nat.le_refl _)]

theorem Shape.join?_nil_left (s : List Nat) : Shape.join? [] s = some s := by
  have each : ∀ p ∈ (List.replicate s.length 1).zip s, Shape.joinSide? p.1 p.2 = some p.2 := by
    rintro ⟨n, k⟩ member
    have one : n = 1 := List.eq_of_mem_replicate (List.of_mem_zip member).1
    rw [one, Shape.joinSide?_one_left]
  simp only [Shape.join?, List.length_nil, Nat.zero_max, Shape.pad_length_self, Shape.pad_nil]
  rw [mapM_eq_some_map each, List.map_snd_zip (by simp)]

theorem Shape.join?_nil_right (s : List Nat) : Shape.join? s [] = some s := by
  have each : ∀ p ∈ s.zip (List.replicate s.length 1), Shape.joinSide? p.1 p.2 = some p.1 := by
    rintro ⟨n, k⟩ member
    have one : k = 1 := List.eq_of_mem_replicate (List.of_mem_zip member).2
    rw [one, Shape.joinSide?_one_right]
  simp only [Shape.join?, List.length_nil, Nat.max_zero, Shape.pad_length_self, Shape.pad_nil]
  rw [mapM_eq_some_map each, List.map_fst_zip (by simp)]

theorem flatten_pieces {α : Type} {width count : Nat} {xs : List α}
    (total : xs.length = count * width) : (pieces width count xs).flatten = xs := by
  induction count generalizing xs with
  | zero =>
      rw [Nat.zero_mul] at total
      simp [pieces, List.eq_nil_of_length_eq_zero total]
  | succ count ih =>
      have rest : (xs.drop width).length = count * width := by
        rw [List.length_drop, total, Nat.succ_mul, Nat.add_sub_cancel]
      rw [pieces, List.flatten_cons, ih rest, List.take_append_drop]

theorem expand_self {α : Type} {s : List Nat} {xs : List α} (total : xs.length = Shape.size s) :
    expand s s xs = xs := by
  induction s generalizing xs with
  | nil => rfl
  | cons n s ih =>
      have unchanged : (pieces (Shape.size s) n xs).map (expand s s) =
          (pieces (Shape.size s) n xs).map id :=
        List.map_congr_left fun piece member => ih (length_of_mem_pieces total piece member)
      rw [expand, if_pos rfl, List.flatMap_def, unchanged, List.map_id, flatten_pieces total]

/-- A single entry fills the shape to which it is expanded. -/
theorem expand_replicate_one {α : Type} (s : List Nat) (x : α) :
    expand (List.replicate s.length 1) s [x] = List.replicate (Shape.size s) x := by
  induction s with
  | nil => rfl
  | cons n s ih =>
      rw [List.length_cons, List.replicate_succ, expand]
      by_cases one : 1 = n
      · subst one
        simp [pieces, Shape.size_replicate_one, ih, Shape.size]
      · simp [one, ih, Shape.size]

theorem NDArray.dropOnes_length_self (s : List Nat) : NDArray.dropOnes s.length s = s := by
  cases s with
  | nil => simp [NDArray.dropOnes]
  | cons n s =>
      by_cases one : n = 1
      · subst one
        rw [List.length_cons, NDArray.dropOnes, if_neg (Nat.not_succ_le_self _)]
      · simp [NDArray.dropOnes, one]

namespace Tensor

variable {α β γ : Type}

theorem ext_of {a b : Tensor α} (shapes : a.shape = b.shape) (entries : a.entries = b.entries) :
    a = b := by
  cases a
  cases b
  simp_all

theorem broadcastTo?_of_shape_eq {a : Tensor α} {shape : List Nat} (same : a.shape = shape) :
    a.broadcastTo? shape = some ⟨a.entries, by rw [a.length_entries, same]⟩ := by
  subst same
  simp only [broadcastTo?, Shape.pad_length_self, Shape.stretches_self, ↓reduceDIte,
    expand_self a.length_entries]

theorem broadcastTo?_scalar (x : α) (shape : List Nat) :
    (scalar x).broadcastTo? shape =
      some ⟨List.replicate (Shape.size shape) x, List.length_replicate⟩ := by
  have fits : Shape.stretches (Shape.pad shape.length []) shape = true := by
    rw [Shape.pad_nil, Shape.stretches_replicate_one]
  have filled : expand (Shape.pad shape.length []) shape [x] =
      List.replicate (Shape.size shape) x := by
    rw [Shape.pad_nil, expand_replicate_one]
  simp only [broadcastTo?, scalar, fits, ↓reduceDIte, filled]

theorem length_zipWith_entries (f : α → β → γ) {a : Tensor α} {b : Tensor β}
    (same : a.shape = b.shape) : (a.entries.zipWith f b.entries).length = Shape.size b.shape := by
  rw [List.length_zipWith, a.length_entries, b.length_entries, same, Nat.min_self]

/-- Tensors of one shape are combined entry by entry. -/
theorem zipWith?_of_shape_eq (f : α → β → γ) {a : Tensor α} {b : Tensor β}
    (same : a.shape = b.shape) :
    a.zipWith? f b =
      some ⟨b.shape, a.entries.zipWith f b.entries, length_zipWith_entries f same⟩ := by
  have joined : Shape.join? a.shape b.shape = some b.shape := by rw [same, Shape.join?_self]
  simp [zipWith?, joined, broadcastTo?_of_shape_eq same, broadcastTo?_of_shape_eq (a := b) rfl]

theorem scalar_zipWith? (f : α → β → γ) (x : α) (b : Tensor β) :
    (scalar x).zipWith? f b = some (b.map (f x)) := by
  have joined : Shape.join? (scalar x).shape b.shape = some b.shape := Shape.join?_nil_left b.shape
  have entries : (List.replicate (Shape.size b.shape) x).zipWith f b.entries =
      b.entries.map (f x) := by
    apply List.ext_getElem <;> simp [b.length_entries]
  simp [zipWith?, joined, broadcastTo?_scalar, broadcastTo?_of_shape_eq (a := b) rfl, map, entries]

theorem zipWith?_scalar (f : α → β → γ) (a : Tensor α) (y : β) :
    a.zipWith? f (scalar y) = some (a.map fun x => f x y) := by
  have joined : Shape.join? a.shape (scalar y).shape = some a.shape := Shape.join?_nil_right a.shape
  have entries : a.entries.zipWith f (List.replicate (Shape.size a.shape) y) =
      a.entries.map fun x => f x y := by
    apply List.ext_getElem <;> simp [a.length_entries]
  simp [zipWith?, joined, broadcastTo?_scalar, broadcastTo?_of_shape_eq (a := a) rfl, map, entries]

end Tensor

end ProxGrad
