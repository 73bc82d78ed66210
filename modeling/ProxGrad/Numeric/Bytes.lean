import ProxGrad.Numeric.NDArray

/-!
# The bytes of entries

The memory form of entries of a numeric type, least byte first, and the reading of bytes as entries
of another type: an array seen in another element type has the same bytes.
-/

set_option autoImplicit false

namespace ProxGrad

def bytesOfNat : Nat → Nat → List Nat
  | 0, _ => []
  | count + 1, n => n % 256 :: bytesOfNat count (n / 256)

def natOfBytes : List Nat → Nat
  | [] => 0
  | b :: bs => b + 256 * natOfBytes bs

namespace Format

def width (f : Format) : Nat :=
  f.precision + f.maxExponent.log2 + 1

def topExponent (f : Format) : Nat :=
  2 * f.maxExponent - 1

end Format

namespace Binary

def toBits (f : Format) (x : Binary) : Nat :=
  let unit := Nat.pow 2 (f.precision - 1)
  let pack (s : Bool) (exponent fraction : Nat) : Nat :=
    (s.toNat * (f.topExponent + 1) + exponent) * unit + fraction
  match x.convert f with
  | .nan => pack false f.topExponent (unit / 2)
  | .infinite s => pack s f.topExponent 0
  | .finite s m e =>
    if m < unit then pack s 0 m else pack s (e - f.minExponent + 1).toNat (m - unit)

def ofBits (f : Format) (bits : Nat) : Binary :=
  let unit := Nat.pow 2 (f.precision - 1)
  let fraction := bits % unit
  let exponent := bits / unit % (f.topExponent + 1)
  let negative := bits / unit / (f.topExponent + 1) % 2 == 1
  if exponent = f.topExponent then if fraction = 0 then .infinite negative else .nan
  else if exponent = 0 then .finite negative fraction f.minExponent
  else .finite negative (unit + fraction) (f.minExponent + (exponent - 1 : Nat))

end Binary

namespace Scalar

/-- The bytes of an entry of a numeric type; other entries have no memory form of their own. -/
def toBytes? (d : DType) (x : Scalar) : Option (List Nat) :=
  match d, x with
  | .bool, .bool b => some [b.toNat]
  | .int _ bits, .int i => some (bytesOfNat (bits / 8) (i % Nat.pow 2 bits).toNat)
  | .real p, .real x => some (bytesOfNat (p.bits / 8) (x.toBits p.format))
  | .complex p, .complex re im =>
    let part (x : Binary) : List Nat := bytesOfNat (p.bits / 8) (x.toBits p.format)
    some (part re ++ part im)
  | _, _ => none

def ofBytes? (d : DType) (bytes : List Nat) : Option Scalar :=
  match d with
  | .bool => some (.bool (natOfBytes bytes != 0))
  | .int signed bits => some (.int (DType.wrap signed bits (natOfBytes bytes)))
  | .real p => some (.real (Binary.ofBits p.format (natOfBytes bytes)))
  | .complex p =>
    let half := p.bits / 8
    some (.complex (Binary.ofBits p.format (natOfBytes (bytes.take half)))
      (Binary.ofBits p.format (natOfBytes (bytes.drop half))))
  | _ => none

end Scalar

namespace NDArray

/-- The shape under which the bytes of an array are seen as entries of another size: the last side
changes. -/
def viewShape (shape : List Nat) (old new : Nat) : Except Fault (List Nat) :=
  if old = new then .ok shape
  else
    match shape.getLast? with
    | none => .error .shapes
    | some last =>
      if new = 0 || (last * old) % new ≠ 0 then .error .shapes
      else .ok (shape.dropLast ++ [last * old / new])

def view (d : DType) (a : NDArray) : Except Fault NDArray := do
  if d = a.dtype then return a
  let shape ← viewShape a.shape a.dtype.size d.size
  match a.data.entries.mapM (Scalar.toBytes? a.dtype) with
  | none => throw .operandTypes
  | some bytes =>
    match (pieces d.size (Shape.size shape) bytes.flatten).mapM (Scalar.ofBytes? d) with
    | none => throw .operandTypes
    | some entries =>
      match Tensor.ofShape? shape entries with
      | some data => return ⟨d, data⟩
      | none => throw .shapes

end NDArray

end ProxGrad
