import ProxGrad.Numeric.NDArray

/-!
# Entrywise comparison

Arrays of truth values from two arrays. Integers of all widths are compared exactly, other numbers
in their common type, and entries that are values of their own as literals. Complex numbers are
ordered by their real parts, then by their imaginary ones.
-/

set_option autoImplicit false

namespace ProxGrad

/-- A relation between two values. -/
inductive Relation where
  | less
  | atMost
  | equal
deriving DecidableEq, Repr

namespace Relation

def holds (r : Relation) (order : Option Ordering) : Bool :=
  match r with
  | .less => order == some .lt
  | .atMost => order == some .lt || order == some .eq
  | .equal => order == some .eq

end Relation

namespace Scalar

def relatedComplex (r : Relation) (a b c d : Binary) : Bool :=
  let first := Binary.lt a c && !b.isNaN && !d.isNaN
  match r with
  | .less => first || (Binary.eq a c && Binary.lt b d)
  | .atMost => first || (Binary.eq a c && Binary.le b d)
  | .equal => equalComplex a b c d

def related (r : Relation) (x y : Scalar) : Bool :=
  match x, y with
  | .bool a, .bool b => r.holds (some (compare a.toNat b.toNat))
  | .int i, .int j => r.holds (some (compare i j))
  | .real a, .real b => r.holds (Binary.compare? a b)
  | .complex a b, .complex c d => relatedComplex r a b c d
  | .text s, .text t => r.holds (some (compare s t))
  | _, _ => false

def relatedLiterals (r : Relation) (x y : Scalar) : Except Fault Bool :=
  match r with
  | .equal => equal x y
  | r => (compare? x y).map r.holds

end Scalar

namespace NDArray

def toInteger : Scalar → Scalar
  | .bool b => .int b.toNat
  | x => x

def isIntegral : DType → Bool
  | .bool | .int .. => true
  | _ => false

/-- Where a relation holds of the entries of two arrays. Text differs from every number. -/
def compareWith (r : Relation) (a b : NDArray) : Except Fault NDArray := do
  let flags (f : Scalar → Scalar → Bool) (a b : NDArray) : Except Fault NDArray := do
    return ⟨.bool, (← a.pairs b).map fun (x, y) => .bool (f x y)⟩
  match a.dtype, b.dtype with
  | .object, _ | _, .object =>
    let a ← a.convertTo .object
    let b ← b.convertTo .object
    return ⟨.bool, ← (← a.pairs b).mapM fun (x, y) => (Scalar.relatedLiterals r x y).map .bool⟩
  | .text _, .text _ => flags (Scalar.related r) a b
  | .text _, _ | _, .text _ =>
    if r = .equal then flags (fun _ _ => false) a b else throw .entryTypes
  | d, e =>
    if isIntegral d && isIntegral e then
      flags (fun x y => Scalar.related r (toInteger x) (toInteger y)) a b
    else
      let common := d.promote e
      flags (fun x y => Scalar.related r (x.cast common) (y.cast common)) a b

end NDArray

end ProxGrad
