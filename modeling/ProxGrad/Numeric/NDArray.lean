import ProxGrad.Tensor.Basic
import ProxGrad.Numeric.Conversion

/-!
# Arrays

An array is a tensor of entries of one element type. Entrywise operations first convert both
operands to their common type and broadcast them; on entries that are values of their own they are
the operations of literals. Storing into an array broadcasts to its shape and converts to its own
type, entry by entry, up to the first that has no value of that type.
-/

set_option autoImplicit false

namespace ProxGrad

/-- A tensor of entries of one element type. -/
structure NDArray where
  dtype : DType
  data : Tensor Scalar

namespace NDArray

def ofScalar (d : DType) (x : Scalar) : NDArray :=
  ⟨d, .scalar x⟩

def shape (a : NDArray) : List Nat :=
  a.data.shape

def size (a : NDArray) : Nat :=
  a.data.size

def convertTo (d : DType) (a : NDArray) : Except Fault NDArray :=
  match a.dtype with
  | .object | .text _ => (a.data.mapM (Scalar.convert d a.dtype)).map (NDArray.mk d)
  | _ => .ok ⟨d, a.data.map (Scalar.cast d)⟩

def zerosLike (a : NDArray) : NDArray :=
  ⟨a.dtype, .fill a.shape (.zero a.dtype)⟩

def allFinite (a : NDArray) : Bool :=
  a.data.entries.all Scalar.isFinite

def pairs (a b : NDArray) : Except Fault (Tensor (Scalar × Scalar)) :=
  match a.data.zipWith? Prod.mk b.data with
  | some pairs => .ok pairs
  | none => .error .shapes

/-- The entrywise operation after broadcasting. Two arrays of text have a sum, entry after entry. -/
def binary (op : Scalar.Op) (a b : NDArray) : Except Fault NDArray := do
  let common := a.dtype.promote b.dtype
  match op, a.dtype, b.dtype with
  | .add, .text m, .text n =>
    let data ← (← a.pairs b).mapM fun (x, y) => Scalar.applyLiteral .add x y
    return ⟨.text (m + n), data⟩
  | _, _, _ =>
    let result ← Scalar.resultType op common
    let a ← a.convertTo common
    let b ← b.convertTo common
    if common = .object then
      return ⟨.object, ← (← a.pairs b).mapM fun (x, y) => Scalar.applyLiteral op x y⟩
    else
      return ⟨result, (← a.pairs b).map fun (x, y) => Scalar.apply common op x y⟩

def abs (a : NDArray) : Except Fault NDArray :=
  match a.dtype with
  | .text _ => .error .entryTypes
  | .object => (a.data.mapM Scalar.absLiteral).map (NDArray.mk .object)
  | d => .ok ⟨d.realPart, a.data.map (Scalar.abs d)⟩

def sign (a : NDArray) : Except Fault NDArray :=
  match a.dtype with
  | .bool | .text _ => .error .entryTypes
  | .object => (a.data.mapM Scalar.signLiteral).map (NDArray.mk .object)
  | d => .ok ⟨d, a.data.map (Scalar.sign d)⟩

def rootType : DType → Except Fault DType
  | .bool => .ok (.real .half)
  | .int _ bits => .ok (.real (DType.realOfBits bits))
  | .text _ | .object => .error .operandTypes
  | d => .ok d

def sqrt (a : NDArray) : Except Fault NDArray := do
  match a.dtype with
  | .object => return ⟨.object, ← a.data.mapM Scalar.rootLiteral⟩
  | d =>
    let d ← rootType d
    return ⟨d, (a.data.map (Scalar.cast d)).map (Scalar.sqrt d)⟩

def square (a : NDArray) : Except Fault NDArray := do
  match a.dtype with
  | .bool =>
    let b ← a.convertTo (.int true 8)
    binary .mul b b
  | .object => return ⟨.object, ← a.data.mapM Scalar.squareLiteral⟩
  | _ => binary .mul a a

def accumulate (p : Precision) (x y : Binary) : Binary :=
  Binary.add p.accumulator.format x y

/-- The sum of entries of one numeric type: integers wrap, reals and complex numbers are rounded
at each step and once more into the type. -/
def sumEntries (d : DType) (xs : List Scalar) : Scalar :=
  match d with
  | .real p =>
    .real ((xs.foldl (fun s x => accumulate p s (x.toReal p.format)) .zero).convert p.format)
  | .complex p =>
    let step (s : Binary × Binary) (x : Scalar) : Binary × Binary :=
      match x with
      | .complex re im => (accumulate p s.1 re, accumulate p s.2 im)
      | _ => s
    let (re, im) := xs.foldl step (.zero, .zero)
    .complex (re.convert p.format) (im.convert p.format)
  | .bool => .bool (xs.any Scalar.toBool)
  | d => xs.foldl (fun s x => Scalar.apply d .add s x) (.zero d)

def termProduct (d : DType) (x y : Scalar) : Scalar :=
  match d, x, y with
  | .real .half, .real a, .real b => .real (Binary.mul .single a b)
  | d, x, y => Scalar.apply d .mul x y

/-- The sum of entries of a type `d`, where the entries may still carry the accumulator's width. -/
def sumProducts (d : DType) (xs ys : List Scalar) : Scalar :=
  match d with
  | .real p =>
    let step (s : Binary) (x : Scalar) : Binary :=
      match x with
      | .real r => accumulate p s r
      | _ => s
    .real (((xs.zipWith (termProduct d) ys).foldl step .zero).convert p.format)
  | d => sumEntries d (xs.zipWith (Scalar.apply d .mul) ys)

def sumType : DType → Except Fault DType
  | .bool => .ok .int64
  | .int signed _ => .ok (.int signed 64)
  | .text _ => .error .entryTypes
  | d => .ok d

def sumLiterals : List Scalar → Except Fault Scalar
  | [] => .ok (.int 0)
  | x :: xs => xs.foldlM (Scalar.applyLiteral .add) x

def sumLiteralProducts (xs ys : List Scalar) : Except Fault Scalar := do
  match xs.zip ys with
  | [] => return .int 0
  | (x, y) :: rest =>
    let first ← Scalar.applyLiteral .mul x y
    rest.foldlM (fun s (x, y) => do
      Scalar.applyLiteral .add s (← Scalar.applyLiteral .mul x y)) first

def sum (a : NDArray) : Except Fault NDArray := do
  match ← sumType a.dtype with
  | .object => return ofScalar .object (← sumLiterals a.data.entries)
  | d => return ofScalar d (sumEntries d (a.data.entries.map (Scalar.cast d)))

def conjugated (fault : Fault) (x : Scalar) : Except Fault Scalar :=
  match x.conjLiteral? with
  | some y => .ok y
  | none => .error fault

def innerLiterals (xs ys : List Scalar) : Except Fault Scalar := do
  match xs.zip ys with
  | [] => return .absent
  | (x, y) :: rest =>
    let term (x y : Scalar) : Except Fault Scalar := do
      Scalar.applyLiteral .mul (← conjugated .noField x) y
    let first ← term x y
    rest.foldlM (fun s (x, y) => do Scalar.applyLiteral .add s (← term x y)) first

/-- The inner product of two arrays of equally many entries, the first conjugated. -/
def inner (a b : NDArray) : Except Fault NDArray := do
  let d := a.dtype.promote b.dtype
  match d with
  | .text _ => throw .operandTypes
  | .object =>
    if a.size ≠ b.size then throw .shapes
    let a ← a.convertTo .object
    let b ← b.convertTo .object
    return ofScalar .object (← innerLiterals a.data.entries b.data.entries)
  | _ =>
    if a.size ≠ b.size then throw .shapes
    return ofScalar d (sumProducts d (a.data.entries.map fun x => (x.cast d).conj)
      (b.data.entries.map (Scalar.cast d)))

def norm (a : NDArray) : Except Fault NDArray := do
  match a.dtype with
  | .object =>
    let square ← sumLiteralProducts a.data.entries a.data.entries
    let b ← (ofScalar .object square).convertTo square.ownType
    b.sqrt
  | .real p =>
    return ofScalar a.dtype (.real (Binary.sqrt p.format
      ((sumProducts a.dtype a.data.entries a.data.entries).toReal p.format)))
  | .complex p =>
    let parts (f : Binary → Binary → Binary) : List Scalar :=
      a.data.entries.map fun x => match x with
        | .complex re im => .real (f re im)
        | x => x
    let res := parts fun re _ => re
    let ims := parts fun _ im => im
    let total := Scalar.apply (.real p) .add (sumProducts (.real p) res res)
      (sumProducts (.real p) ims ims)
    return ofScalar (.real p) (.real (Binary.sqrt p.format (total.toReal p.format)))
  | _ =>
    let b ← a.convertTo .float64
    return ofScalar .float64 (.real (Binary.sqrt .double
      ((sumProducts .float64 b.data.entries b.data.entries).toReal .double)))

def flatten (a : NDArray) : NDArray :=
  ⟨a.dtype, a.data.flatten⟩

def reshape (a : NDArray) (shape : List Nat) : Except Fault NDArray :=
  match a.data.reshape? shape with
  | some data => .ok ⟨a.dtype, data⟩
  | none => .error .shapes

def rows (count columns : Nat) (a : NDArray) : List (List Scalar) :=
  pieces columns count a.data.entries

/-- The sums of products of the rows of a matrix with a vector of the same type. -/
def rowProducts (d : DType) (rows : List (List Scalar)) (xs : List Scalar) :
    Except Fault NDArray := do
  match d with
  | .text _ => throw .operandTypes
  | .object => return ⟨d, .ofList (← rows.mapM fun row => sumLiteralProducts row xs)⟩
  | d => return ⟨d, .ofList (rows.map fun row => sumProducts d row xs)⟩

def transposed (d : DType) (columns : Nat) (rows : List (List Scalar)) : List (List Scalar) :=
  (List.range columns).map fun j => rows.map fun row => row.getD j (.zero d)

def matVec (count columns : Nat) (a v : NDArray) : Except Fault NDArray := do
  let d := a.dtype.promote v.dtype
  if v.size ≠ columns then throw .shapes
  let a ← a.convertTo d
  let v ← v.convertTo d
  rowProducts d (rows count columns a) v.data.entries

def conj (a : NDArray) : Except Fault NDArray :=
  match a.dtype with
  | .object => (a.data.mapM (conjugated .operandTypes)).map (NDArray.mk .object)
  | d => .ok ⟨d, a.data.map Scalar.conj⟩

/-- The product of the conjugate transpose of a matrix of these dimensions with a vector. -/
def adjointVec (count columns : Nat) (a v : NDArray) : Except Fault NDArray := do
  let d := a.dtype.promote v.dtype
  if v.size ≠ count then throw .shapes
  let a ← (← a.conj).convertTo d
  let v ← v.convertTo d
  rowProducts d (transposed d columns (rows count columns a)) v.data.entries

def isStorable : DType → Bool
  | .text _ | .object | .real .half => false
  | _ => true

/-- The type in which a stored matrix meets a vector: no products are taken in half precision. -/
def storedType (d e : DType) : Except Fault DType :=
  match d.promote e with
  | .text _ | .object => .error .operandTypes
  | .real .half => .ok (.real .single)
  | d => .ok d

def storedProducts (d : DType) (rows : List (List Scalar)) (xs : List Scalar) : NDArray :=
  ⟨d, .ofList (rows.map fun row =>
    let kept := (row.zip xs).filter fun (a, _) => a.toBool
    sumProducts d (kept.map Prod.fst) (kept.map Prod.snd))⟩

/-- The product of a matrix of these dimensions, stored by its entries that are not zero, with a
vector. -/
def storedVec (count columns : Nat) (a v : NDArray) : Except Fault NDArray := do
  let d ← storedType a.dtype v.dtype
  if v.size ≠ columns then throw .shapes
  let a ← a.convertTo d
  let v ← v.convertTo d
  return storedProducts d (rows count columns a) v.data.entries

/-- The product of the conjugate transpose of a matrix of these dimensions, stored by its entries
that are not zero, with a vector. -/
def storedAdjointVec (count columns : Nat) (a v : NDArray) : Except Fault NDArray := do
  let d ← storedType a.dtype v.dtype
  if v.size ≠ count then throw .shapes
  let a ← (← a.conj).convertTo d
  let v ← v.convertTo d
  return storedProducts d (transposed d columns (rows count columns a)) v.data.entries

def dropOnes (rank : Nat) : List Nat → List Nat
  | 1 :: s => if rank ≤ s.length then dropOnes rank s else 1 :: s
  | s => s

/-- The entries after converted ones took their places in order, up to the first that fails. -/
def overwrite {α β : Type} (f : α → Except Fault β) :
    List β → List α → List β × Except Fault Unit
  | old :: olds, x :: xs =>
    match f x with
    | .error fault => (old :: olds, .error fault)
    | .ok y =>
      let (ys, result) := overwrite f olds xs
      (y :: ys, result)
  | olds, _ => (olds, .ok ())

theorem length_overwrite {α β : Type} (f : α → Except Fault β) (olds : List β) (xs : List α) :
    (overwrite f olds xs).1.length = olds.length := by
  fun_induction overwrite f olds xs with
  | case1 => rfl
  | case2 old olds x xs y _ ys result run ih => simp_all
  | case3 => rfl

def overwritten {α : Type} (f : α → Except Fault Scalar) (destination : NDArray) (xs : List α) :
    NDArray × Except Fault Unit :=
  let result := overwrite f destination.data.entries xs
  (⟨destination.dtype, destination.shape, result.1, by
    rw [length_overwrite, destination.data.length_entries]; rfl⟩, result.2)

/-- The destination after a store: the source is repeated to the destination's shape, and its
entries are converted to the destination's type in order. The entries before one that fails are
stored. -/
def store (destination source : NDArray) : NDArray × Except Fault Unit :=
  let shape := dropOnes destination.shape.length source.shape
  match (Tensor.ofShape? shape source.data.entries).bind fun t =>
      t.broadcastTo? destination.shape with
  | none => (destination, .error .shapes)
  | some ⟨xs, _⟩ => destination.overwritten (Scalar.convert destination.dtype source.dtype) xs

end NDArray

end ProxGrad
