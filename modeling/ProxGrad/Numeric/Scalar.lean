import ProxGrad.Numeric.DType
import ProxGrad.Decimal.Value

/-!
# Entries and their arithmetic

One entry of an array, the conversion of an entry to another element type, and the arithmetic of
entries of one numeric type: integers wrap, reals are rounded once, and complex operations are the
stated sequences of real ones. A conversion between numeric types never fails; what does not fit is
cut.
-/

set_option autoImplicit false

namespace ProxGrad

/-- One entry of an array. Entries of a numeric type are truth values, integers, reals and complex
numbers; all other forms occur only as entries that are values of their own. -/
inductive Scalar where
  | bool (b : Bool)
  | int (i : Int)
  | real (x : Binary)
  | complex (re im : Binary)
  | text (s : String)
  /-- Text by number, not all of them numbers of characters. -/
  | brokenText (codes : List Nat)
  | ratio (num : Int) (den : Nat)
  | decimal (d : DecimalValue)
  | absent
  | list (items : List Scalar)
  | tuple (items : List Scalar)
  | dict (fields : List (String × Scalar))
  /-- One number with an element type. -/
  | number (dtype : DType) (x : Scalar)
  /-- An array with its shape and entries. -/
  | table (dtype : DType) (shape : List Nat) (entries : List Scalar)
  /-- A value known only by the name of its type and by its text. -/
  | foreign (typeName form : String)
deriving Repr, Inhabited

namespace Scalar

/-- The integer that the machine stores for a real that is cut to an integer type. Types of at
most 32 signed bits or 16 unsigned ones pass through 32 bits, the others through 64. What does not
fit the passage becomes its least value. -/
def cutReal (signed : Bool) (bits : Nat) (x : Binary) : Int :=
  let through (width : Nat) : Int :=
    let least : Int := -(Nat.pow 2 (width - 1) : Nat)
    match x.truncate? with
    | some t => if DType.holds true width t then t else least
    | none => least
  if bits < 32 || (signed && bits == 32) then DType.wrap signed bits (through 32)
  else if !signed && bits == 64 then
    match x with
    | .infinite false => 0
    | _ =>
      match x.truncate? with
      | some t =>
        if DType.holds true 64 t || t < 0 then DType.wrap false 64 (through 64)
        else if DType.holds false 64 t then t
        else 0
      | none => Nat.pow 2 63
  else DType.wrap signed bits (through 64)

/-- The real value of an entry of a numeric type; the real part of a complex one. -/
def toReal (f : Format) : Scalar → Binary
  | .bool b => Binary.ofInt f b.toNat
  | .int i => Binary.ofInt f i
  | .real x => x.convert f
  | .complex re _ => re.convert f
  | _ => .nan

def toBool : Scalar → Bool
  | .bool b => b
  | .int i => i != 0
  | .real x => !x.isZero
  | .complex re im => !(re.isZero && im.isZero)
  | _ => true

/-- An entry of a numeric type as a literal: floating parts in double precision. -/
def toLiteral : Scalar → Scalar
  | .real x => .real (x.convert .double)
  | .complex re im => .complex (re.convert .double) (im.convert .double)
  | x => x

/-- The entry of another element type that the unchecked conversion of a number stores. -/
def cast (d : DType) (x : Scalar) : Scalar :=
  match d with
  | .bool => .bool x.toBool
  | .int signed bits =>
    match x with
    | .bool b => .int b.toNat
    | .int i => .int (DType.wrap signed bits i)
    | .real r => .int (cutReal signed bits r)
    | .complex re _ => .int (cutReal signed bits re)
    | _ => .int 0
  | .real .half =>
    match x with
    | .int i => .real ((Binary.ofInt .single i).convert .half)
    | x => .real (x.toReal .half)
  | .real p => .real (x.toReal p.format)
  | .complex p =>
    match x with
    | .complex re im => .complex (re.convert p.format) (im.convert p.format)
    | x => .complex (x.toReal p.format) .zero
  | .text _ => x
  | .object => x.toLiteral

def zero : DType → Scalar
  | .bool => .bool false
  | .int .. => .int 0
  | .real _ => .real .zero
  | .complex _ => .complex .zero .zero
  | .text _ => .text ""
  | .object => .absent

def isFinite : Scalar → Bool
  | .real x => x.isFinite
  | .complex re im => re.isFinite && im.isFinite
  | _ => true

def divComplex (f : Format) (a b c d : Binary) : Binary × Binary :=
  let mul := Binary.mul f
  let add := Binary.add f
  let sub := Binary.sub f
  let div := Binary.div f
  if Binary.le d.abs c.abs then
    if c.isZero && d.isZero then (div a c.abs, div b c.abs)
    else
      let ratio := div d c
      let scale := div (Binary.ofInt f 1) (add c (mul d ratio))
      (mul (add a (mul b ratio)) scale, mul (sub b (mul a ratio)) scale)
  else
    let ratio := div c d
    let scale := div (Binary.ofInt f 1) (add d (mul c ratio))
    (mul (add (mul a ratio) b) scale, mul (sub (mul b ratio) a) scale)

def mulComplex (f : Format) (a b c d : Binary) : Binary × Binary :=
  (Binary.sub f (Binary.mul f a c) (Binary.mul f b d),
    Binary.add f (Binary.mul f a d) (Binary.mul f b c))

/-- The arithmetic operations on two entries. -/
inductive Op where
  | add
  | sub
  | mul
  | div
  | maximum
  | minimum
deriving DecidableEq, Repr

/-- The larger, or the smaller, of two reals; a NaN wins over every number, and of two NaNs or two
equal numbers the first. -/
def choose (larger : Bool) (x y : Binary) : Binary :=
  if x.isNaN then x
  else if y.isNaN then y
  else if larger then (if Binary.le y x then x else y)
  else if Binary.le x y then x else y

/-- The order by real part, then by imaginary part, in which complex maxima are taken. -/
def complexLe (a b c d : Binary) : Bool :=
  if Binary.lt a c then !b.isNaN && !d.isNaN
  else Binary.eq a c && Binary.le b d

def applyInt (signed : Bool) (bits : Nat) (op : Op) (i j : Int) : Scalar :=
  match op with
  | .add => .int (DType.wrap signed bits (i + j))
  | .sub => .int (DType.wrap signed bits (i - j))
  | .mul => .int (DType.wrap signed bits (i * j))
  | .maximum => .int (max i j)
  | .minimum => .int (min i j)
  | .div => .real (Binary.div .double (Binary.ofInt .double i) (Binary.ofInt .double j))

def applyReal (f : Format) (op : Op) (x y : Binary) : Binary :=
  match op with
  | .add => Binary.add f x y
  | .sub => Binary.sub f x y
  | .mul => Binary.mul f x y
  | .div => Binary.div f x y
  | .maximum => choose true x y
  | .minimum => choose false x y

def applyComplex (f : Format) (op : Op) (a b c d : Binary) : Binary × Binary :=
  match op with
  | .add => (Binary.add f a c, Binary.add f b d)
  | .sub => (Binary.sub f a c, Binary.sub f b d)
  | .mul => mulComplex f a b c d
  | .div => divComplex f a b c d
  | .maximum =>
    if a.isNaN || b.isNaN then (a, b)
    else if c.isNaN || d.isNaN then (c, d)
    else if complexLe c d a b then (a, b) else (c, d)
  | .minimum =>
    if a.isNaN || b.isNaN then (a, b)
    else if c.isNaN || d.isNaN then (c, d)
    else if complexLe a b c d then (a, b) else (c, d)

def applyBool (op : Op) (a b : Bool) : Scalar :=
  match op with
  | .add | .maximum => .bool (a || b)
  | .mul | .minimum => .bool (a && b)
  | .sub => .bool (a != b)
  | .div => .real (Binary.div .double (Binary.ofInt .double a.toNat) (Binary.ofInt .double b.toNat))

/-- The operation on two entries of one numeric type; entries of other types are left. -/
def apply (d : DType) (op : Op) (x y : Scalar) : Scalar :=
  match d, x, y with
  | .bool, .bool a, .bool b => applyBool op a b
  | .int signed bits, .int i, .int j => applyInt signed bits op i j
  | .real p, .real a, .real b => .real (applyReal p.format op a b)
  | .complex p, .complex a b, .complex c d =>
    let (re, im) := applyComplex p.format op a b c d
    .complex re im
  | _, x, _ => x

/-- The magnitude; a complex number has a real one, and the least integer none of its own. -/
def abs (d : DType) (x : Scalar) : Scalar :=
  match d, x with
  | .int signed bits, .int i => .int (DType.wrap signed bits i.natAbs)
  | .real _, .real a => .real a.abs
  | .complex p, .complex a b => .real (Binary.scaledHypot p.format a b)
  | _, x => x

/-- The sign: `-1`, `0` or `1`, a NaN its own, and `z / |z|` for a complex number. -/
def sign (d : DType) (x : Scalar) : Scalar :=
  let ofReal (f : Format) (a : Binary) : Binary :=
    if a.isNaN then a
    else if a.isZero then Binary.ofInt f 0
    else Binary.ofInt f (if a.isNegative then -1 else 1)
  match d, x with
  | .int .., .int i => .int i.sign
  | .real p, .real a => .real (ofReal p.format a)
  | .complex p, .complex a b =>
    let f := p.format
    match Binary.hypot f a b with
    | .nan => .complex .nan .nan
    | .infinite _ =>
      match a, b with
      | .infinite _, .infinite _ => .complex .nan .nan
      | .infinite _, _ => .complex (ofReal f a) (Binary.ofInt f 0)
      | _, _ => .complex (Binary.ofInt f 0) (ofReal f b)
    | length =>
      if length.isZero then .complex (Binary.ofInt f 0) (Binary.ofInt f 0)
      else .complex (Binary.div f a length) (Binary.div f b length)
  | _, x => x

/-- The principal square root of a complex number, by half the sum of its length and its real
part, taken with enough bits that only the last step rounds. -/
def sqrtComplex (f : Format) (a b : Binary) : Binary × Binary :=
  let wide : Format := ⟨3 * f.precision, 4 * f.maxExponent⟩
  let two := Binary.ofInt wide 2
  if a.isZero && b.isZero then (Binary.ofInt f 0, b)
  else
    match a, b with
    | _, .infinite s => (.infinite false, .infinite s)
    | .nan, _ => (.nan, .nan)
    | .infinite false, b =>
      (.infinite false, if b.isNaN then .nan else Binary.round f b.isNegative 0 0 false)
    | .infinite true, b => (if b.isNaN then .nan else Binary.ofInt f 0, .infinite b.isNegative)
    | _, .nan => (.nan, .nan)
    | a, b =>
      let length := Binary.hypot wide a b
      let root := Binary.sqrt wide (Binary.div wide (Binary.add wide length a.abs) two)
      let other := Binary.div wide b.abs (Binary.mul wide two root)
      let signed (x : Binary) : Binary := if b.isNegative then x.neg else x
      if a.isNegative then (other.convert f, (signed root).convert f)
      else (root.convert f, (signed other).convert f)

def sqrt (d : DType) (x : Scalar) : Scalar :=
  match d, x with
  | .real p, .real a => .real (Binary.sqrt p.format a)
  | .complex p, .complex a b =>
    let (re, im) := sqrtComplex p.format a b
    .complex re im
  | _, x => x

def conj : Scalar → Scalar
  | .complex re im => .complex re im.neg
  | x => x

end Scalar

end ProxGrad
