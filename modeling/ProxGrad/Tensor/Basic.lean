/-!
# Tensors

A tensor is a shape with one entry for each index, listed with the last index running fastest.
This module holds the entrywise operations and broadcasting: two tensors are combined by aligning
their shapes at the end and repeating along every side of length one.
-/

set_option autoImplicit false

namespace ProxGrad

def Shape.size : List Nat → Nat
  | [] => 1
  | n :: shape => n * Shape.size shape

/-- Entries of type `α` in row-major order, as many as the shape has indices. -/
structure Tensor (α : Type) where
  shape : List Nat
  entries : List α
  length_entries : entries.length = Shape.size shape

namespace Shape

theorem size_append (s t : List Nat) : size (s ++ t) = size s * size t := by
  induction s with
  | nil => simp [size]
  | cons n s ih => simp [size, ih, Nat.mul_assoc]

theorem size_replicate_one (k : Nat) : size (List.replicate k 1) = 1 := by
  induction k with
  | zero => rfl
  | succ k ih => simp [List.replicate_succ, size, ih]

/-- Whether every side of the first shape is one or the same as in the second. -/
def stretches : List Nat → List Nat → Bool
  | [], [] => true
  | n :: s, k :: t => (n == 1 || n == k) && stretches s t
  | _, _ => false

/-- The shape with sides of length one in front, up to the given rank. -/
def pad (rank : Nat) (s : List Nat) : List Nat :=
  List.replicate (rank - s.length) 1 ++ s

theorem size_pad (rank : Nat) (s : List Nat) : size (pad rank s) = size s := by
  simp [pad, size_append, size_replicate_one]

/-- The common side of two sides, one of which is one unless they agree. -/
def joinSide? (n k : Nat) : Option Nat :=
  if n = k then some n else if n = 1 then some k else if k = 1 then some n else none

def join? (s t : List Nat) : Option (List Nat) :=
  let rank := max s.length t.length
  ((pad rank s).zip (pad rank t)).mapM fun (n, k) => joinSide? n k

end Shape

/-- The list cut into `count` pieces of the given width. -/
def pieces {α : Type} (width : Nat) : Nat → List α → List (List α)
  | 0, _ => []
  | count + 1, xs => xs.take width :: pieces width count (xs.drop width)

/-- The entries of a tensor of the first shape repeated to fill the second, both of one rank. -/
def expand {α : Type} : List Nat → List Nat → List α → List α
  | n :: s, k :: t, xs =>
    if n = k then (pieces (Shape.size s) n xs).flatMap (expand s t)
    else (List.replicate k (expand s t xs)).flatten
  | _, _, xs => xs

theorem length_of_mem_pieces {α : Type} {width count : Nat} {xs : List α}
    (total : xs.length = count * width) :
    ∀ piece ∈ pieces width count xs, piece.length = width := by
  induction count generalizing xs with
  | zero => simp [pieces]
  | succ count ih =>
    have enough : width ≤ xs.length := by
      rw [total, Nat.succ_mul]; exact Nat.le_add_left ..
    intro piece member
    simp only [pieces, List.mem_cons] at member
    rcases member with rfl | member
    · simp [Nat.min_eq_left enough]
    · refine ih ?_ piece member
      rw [List.length_drop, total, Nat.succ_mul, Nat.add_sub_cancel]

theorem length_pieces {α : Type} (width count : Nat) (xs : List α) :
    (pieces width count xs).length = count := by
  induction count generalizing xs with
  | zero => rfl
  | succ count ih => simp [pieces, ih]

theorem length_flatMap_of_forall {α β : Type} {f : α → List β} {width : Nat} (xs : List α)
    (each : ∀ x ∈ xs, (f x).length = width) : (xs.flatMap f).length = xs.length * width := by
  induction xs with
  | nil => simp
  | cons x xs ih =>
    rw [List.flatMap_cons, List.length_append, each x (by simp),
      ih fun y member => each y (by simp [member]), List.length_cons, Nat.succ_mul, Nat.add_comm]

/-- Expansion to a shape that the source stretches to gives one entry for each index. -/
theorem length_expand {α : Type} {s t : List Nat} (fits : Shape.stretches s t = true)
    {xs : List α} (total : xs.length = Shape.size s) :
    (expand s t xs).length = Shape.size t := by
  induction s generalizing t xs with
  | nil => cases t <;> simp_all [Shape.stretches, expand]
  | cons n s ih =>
    cases t with
    | nil => simp [Shape.stretches] at fits
    | cons k t =>
      simp only [Shape.stretches, Bool.and_eq_true, Bool.or_eq_true, beq_iff_eq] at fits
      obtain ⟨side, rest⟩ := fits
      rw [expand]
      split
      · next same =>
        subst same
        have each : ∀ piece ∈ pieces (Shape.size s) n xs,
            (expand s t piece).length = Shape.size t :=
          fun piece member => ih rest (length_of_mem_pieces total piece member)
        rw [length_flatMap_of_forall _ each, length_pieces, Shape.size]
      · next differs =>
        have one : n = 1 := side.resolve_right differs
        subst one
        have inner : (expand s t xs).length = Shape.size t :=
          ih rest (by rw [total, Shape.size, Nat.one_mul])
        simp [inner, Shape.size]

namespace Tensor

variable {α β γ : Type}

def scalar (x : α) : Tensor α :=
  ⟨[], [x], rfl⟩

def ofList (xs : List α) : Tensor α :=
  ⟨[xs.length], xs, by simp [Shape.size]⟩

/-- The tensor of the shape with these entries, if they are as many as it has indices. -/
def ofShape? (shape : List Nat) (xs : List α) : Option (Tensor α) :=
  if h : xs.length = Shape.size shape then some ⟨shape, xs, h⟩ else none

def fill (shape : List Nat) (x : α) : Tensor α :=
  ⟨shape, List.replicate (Shape.size shape) x, by simp⟩

def size (a : Tensor α) : Nat :=
  a.entries.length

def map (f : α → β) (a : Tensor α) : Tensor β :=
  ⟨a.shape, a.entries.map f, by simp [a.length_entries]⟩

theorem length_of_mapM_eq_ok {ε : Type} {f : α → Except ε β} {xs : List α} {ys : List β}
    (h : xs.mapM f = .ok ys) : ys.length = xs.length := by
  induction xs generalizing ys with
  | nil =>
    simp only [List.mapM_nil, pure, Except.pure, Except.ok.injEq] at h
    simp [← h]
  | cons x xs ih =>
    rw [List.mapM_cons] at h
    cases hx : f x with
    | error e => simp [hx, bind, Except.bind] at h
    | ok y =>
      cases hxs : xs.mapM f with
      | error e => simp [hx, hxs, bind, Except.bind] at h
      | ok zs =>
        simp only [hx, hxs, bind, Except.bind, pure, Except.pure, Except.ok.injEq] at h
        simp [← h, ih hxs]

/-- The entrywise operation, failing with the first entry on which it fails. -/
def mapM {ε : Type} (f : α → Except ε β) (a : Tensor α) : Except ε (Tensor β) :=
  match h : a.entries.mapM f with
  | .error e => .error e
  | .ok ys => .ok ⟨a.shape, ys, by rw [length_of_mapM_eq_ok h, a.length_entries]⟩

/-- The tensor repeated to a shape, if its own shape stretches to it. -/
def broadcastTo? (a : Tensor α) (shape : List Nat) :
    Option { xs : List α // xs.length = Shape.size shape } :=
  let source := Shape.pad shape.length a.shape
  if h : Shape.stretches source shape = true then
    some ⟨expand source shape a.entries,
      length_expand h (by rw [Shape.size_pad, a.length_entries])⟩
  else none

/-- The two tensors' entries paired after broadcasting to their common shape. -/
def zipWith? (f : α → β → γ) (a : Tensor α) (b : Tensor β) : Option (Tensor γ) := do
  let shape ← Shape.join? a.shape b.shape
  let ⟨xs, hx⟩ ← a.broadcastTo? shape
  let ⟨ys, hy⟩ ← b.broadcastTo? shape
  return ⟨shape, xs.zipWith f ys, by simp [hx, hy]⟩

/-- The same entries under another shape of the same size. -/
def reshape? (a : Tensor α) (shape : List Nat) : Option (Tensor α) :=
  ofShape? shape a.entries

/-- The tensor with one side that runs through all entries. -/
def flatten (a : Tensor α) : Tensor α :=
  ofList a.entries

/-- The tensor with one entry replaced; beyond the end nothing changes. -/
def set (a : Tensor α) (i : Nat) (x : α) : Tensor α :=
  ⟨a.shape, a.entries.set i x, by simp [a.length_entries]⟩

end Tensor

end ProxGrad
