import ProxGrad.Numeric.Scalar

/-!
# Literals

Entries that are values of their own: numbers without an element type, text, sequences and mappings.
Integers and ratios are combined exactly, a real makes the result a real of double precision, and
decimals combine with integers and decimals only. Two reals of any kind are ordered by their exact
values.
-/

set_option autoImplicit false

namespace ProxGrad

def DType.numberName : DType → String
  | .text _ => "str_"
  | .real .extended => "longdouble"
  | .complex .extended => "clongdouble"
  | d => d.name

/-! ## Exact real values -/

/-- The exact value of a real literal: a finite one is `± num / den * 10 ^ exponent`. -/
inductive RealValue where
  | nan
  | infinite (negative : Bool)
  | finite (negative : Bool) (num den : Nat) (exponent : Int)
deriving DecidableEq, Repr

namespace RealValue

/-- The order of `a / b * 10 ^ e` and `c / d`, all not negative and the denominators not zero. The
power is taken only where the digits at hand do not settle the order. -/
def compareMagnitudes (a b c d : Nat) (e : Int) : Ordering :=
  let left := a * d
  let right := c * b
  if left = 0 || right = 0 then compare left right
  else if 0 ≤ e then
    if (digitCount right : Int) < e then .gt else compare (left * Nat.pow 10 e.toNat) right
  else if (digitCount left : Int) < -e then .lt
  else compare left (right * Nat.pow 10 (-e).toNat)

def compare? : RealValue → RealValue → Option Ordering
  | .nan, _ | _, .nan => none
  | .infinite s, .infinite t => some (compare t.toNat s.toNat)
  | .infinite s, .finite .. => some (if s then .lt else .gt)
  | .finite .., .infinite t => some (if t then .gt else .lt)
  | .finite s a b e, .finite t c d f =>
    if a = 0 && c = 0 then some .eq
    else if a = 0 then some (if t then .gt else .lt)
    else if c = 0 then some (if s then .lt else .gt)
    else if s != t then some (if s then .lt else .gt)
    else
      let order := compareMagnitudes a b c d (e - f)
      some (if s then order.swap else order)

end RealValue

namespace Scalar

/-! ## Kinds of literals -/

def valueType : Scalar → String
  | .bool _ => "bool"
  | .int _ => "int"
  | .real _ => "float"
  | .complex .. => "complex"
  | .text _ | .brokenText _ => "str"
  | .ratio .. => "Fraction"
  | .decimal _ => "Decimal"
  | .absent => "NoneType"
  | .list _ => "list"
  | .tuple _ => "tuple"
  | .dict _ => "dict"
  | .number d _ => d.numberName
  | .table .. => "ndarray"
  | .foreign t _ => t

/-- The kind of an operand in the message on sums: a number with an element type is told as the
literal that it is. -/
def summandType : Scalar → String
  | .decimal _ => "decimal.Decimal"
  | .number _ x => x.valueType
  | x => x.valueType

def ownType : Scalar → DType
  | .bool _ => .bool
  | .int i =>
    if DType.holds true 64 i then .int64 else if DType.holds false 64 i then .int false 64
    else .object
  | .real _ => .float64
  | .complex .. => .complex128
  | .text s => .text (max 1 s.length)
  | .brokenText codes => .text codes.length
  | .number d _ | .table d .. => d
  | _ => .object

def realValue? : Scalar → Option RealValue
  | .bool b => some (.finite false b.toNat 1 0)
  | .int i => some (.finite (i < 0) i.natAbs 1 0)
  | .real .nan => some .nan
  | .real (.infinite s) => some (.infinite s)
  | .real (.finite s m e) =>
    let (num, den) := dyadicRatio m e
    some (.finite s num den 0)
  | .ratio num den => some (.finite (num < 0) num.natAbs den 0)
  | .decimal (.finite n) => some (.finite n.negative n.digits 1 n.exponent)
  | .decimal (.infinite s) => some (.infinite s)
  | .decimal (.nan ..) => some .nan
  | .number _ x => x.realValue?
  | _ => none

def isDecimal : Scalar → Bool
  | .decimal _ => true
  | _ => false

def isSignaling : Scalar → Bool
  | .decimal (.nan _ s _) => s
  | _ => false

mutual

/-- The truth of a value: whether it is not zero and not empty. An array of one entry has that
entry's truth; another has none. -/
def truth? : Scalar → Except Fault Bool
  | .absent => .ok false
  | .text s => .ok !s.isEmpty
  | .ratio num _ => .ok (num != 0)
  | .decimal (.finite n) => .ok (n.digits != 0)
  | .list items | .tuple items => .ok !items.isEmpty
  | .dict fields => .ok !fields.isEmpty
  | .number _ x => truth? x
  | .table _ _ entries => truthOfOnly entries
  | x => .ok x.toBool

def truthOfOnly : List Scalar → Except Fault Bool
  | [x] => truth? x
  | _ => .error .shapes

end

/-! ## Equality and order -/

def equalComplex (a b c d : Binary) : Bool :=
  Binary.eq a c && Binary.eq b d

/-- Whether two entries are equal reals. A NaN equals no real, and one that signals is an error
there; what is no real differs from every real. -/
def equalReals (x y : Scalar) : Except Fault Bool :=
  match x.realValue?, y.realValue? with
  | some a, some b =>
    if x.isSignaling || y.isSignaling then DecimalValue.invalid
    else .ok (RealValue.compare? a b == some .eq)
  | _, _ => .ok false

mutual

/-- Whether two values are equal: numbers by value, text by characters, sequences and mappings by
their members. Values of different kinds differ. -/
def equal : Scalar → Scalar → Except Fault Bool
  | .text s, .text t => .ok (s == t)
  | .brokenText s, .brokenText t => .ok (s == t)
  | .absent, .absent => .ok true
  | .complex a b, .complex c d => .ok (equalComplex a b c d)
  | .complex a b, y => if b.isZero then equalReals (.real a) y else .ok false
  | x, .complex c d => if d.isZero then equalReals x (.real c) else .ok false
  | .list xs, .list ys => equalItems xs ys
  | .tuple xs, .tuple ys => equalItems xs ys
  | .dict xs, .dict ys => if xs.length = ys.length then equalFields xs ys else .ok false
  | .number (.real p) (.real x), .real y => .ok (Binary.eq x (y.convert p.format))
  | .real x, .number (.real p) (.real y) => .ok (Binary.eq (x.convert p.format) y)
  | .number _ x, y => equal x (match y with | .number _ y => y | y => y)
  | .table .., _ => .error .shapes
  | x, y => equalReals x y

def equalItems : List Scalar → List Scalar → Except Fault Bool
  | [], [] => .ok true
  | x :: xs, y :: ys => do
    if ← equal x y then equalItems xs ys else return false
  | _, _ => .ok false

def equalFields : List (String × Scalar) → List (String × Scalar) → Except Fault Bool
  | [], _ => .ok true
  | (name, x) :: fields, others => do
    match others.lookup name with
    | none => return false
    | some y => if ← equal x y then equalFields fields others else return false

end

/-- The order of two real entries. A NaN has none, and among decimals none is an error. -/
def compareReals (x y : Scalar) (a b : RealValue) : Except Fault (Option Ordering) :=
  match RealValue.compare? a b with
  | some order => .ok (some order)
  | none => if x.isDecimal || y.isDecimal then DecimalValue.invalid else .ok none

mutual

/-- The order of two values: reals by value, text by characters, sequences by their first different
members. Other values have none. -/
def compare? : Scalar → Scalar → Except Fault (Option Ordering)
  | .text s, .text t => .ok (some (compare s t))
  | .list xs, .list ys => compareItems xs ys
  | .tuple xs, .tuple ys => compareItems xs ys
  | x, y =>
    match x.realValue?, y.realValue? with
    | some a, some b => compareReals x y a b
    | _, _ => .error .operandTypes

def compareItems : List Scalar → List Scalar → Except Fault (Option Ordering)
  | [], [] => .ok (some .eq)
  | [], _ :: _ => .ok (some .lt)
  | _ :: _, [] => .ok (some .gt)
  | x :: xs, y :: ys => do
    if ← equal x y then compareItems xs ys else compare? x y

end

/-! ## Arithmetic -/

/-- The fault of an operation that two values do not have. A sequence in the first place refuses a
sum on its own. -/
def noOperation (op : Op) (x y : Scalar) : Fault :=
  match op, x with
  | .add, .text _ | .add, .brokenText _ | .add, .list _ | .add, .tuple _ => .operandTypes
  | .add, x => .cannotAdd x.summandType y.summandType
  | _, _ => .operandTypes

/-- A literal number by its kind. -/
inductive Numeric where
  | int (i : Int)
  | ratio (num : Int) (den : Nat)
  | real (x : Binary)
  | complex (re im : Binary)
  | decimal (d : DecimalValue)

def numeric? : Scalar → Option Numeric
  | .bool b => some (.int b.toNat)
  | .int i => some (.int i)
  | .ratio num den => some (.ratio num den)
  | .real x => some (.real x)
  | .complex re im => some (.complex re im)
  | .decimal d => some (.decimal d)
  | _ => none

/-- The real that is nearest to a number that is neither complex nor a decimal; one beyond the reals
is an overflow. -/
def Numeric.toReal : Numeric → Except Fault Binary
  | .real x => .ok x
  | .int i => finite (Binary.ofInt .double i)
  | .ratio num den => finite (Binary.ofRatio .double (num < 0) num.natAbs den)
  | _ => .error .operandTypes
where
  finite : Binary → Except Fault Binary
    | .infinite _ => .error .overflow
    | x => .ok x

def applyIntegers (op : Op) (i j : Int) : Except Fault Scalar :=
  match op with
  | .add => .ok (.int (i + j))
  | .sub => .ok (.int (i - j))
  | .mul => .ok (.int (i * j))
  | _ =>
    if j = 0 then .error .divisionByZero
    else
      match Binary.ofRatio .double ((i < 0) != (j < 0)) i.natAbs j.natAbs with
      | .infinite _ => .error .overflow
      | r => .ok (.real r)

def applyRatios (op : Op) (a : Int) (b : Nat) (c : Int) (d : Nat) : Except Fault Scalar :=
  let reduce (num : Int) (den : Nat) : Except Fault Scalar :=
    let g := Nat.gcd num.natAbs den
    .ok (.ratio (num / (g : Int)) (den / g))
  match op with
  | .add => reduce (a * d + c * b) (b * d)
  | .sub => reduce (a * d - c * b) (b * d)
  | .mul => reduce (a * c) (b * d)
  | _ =>
    if c = 0 then .error .divisionByZero
    else reduce (if c < 0 then -(a * d) else a * d) (b * c.natAbs)

def applyReals (op : Op) (a b : Binary) : Except Fault Scalar :=
  match op with
  | .div => if b.isZero then .error .divisionByZero else .ok (.real (Binary.div .double a b))
  | op => .ok (.real (applyReal .double op a b))

def divLiteralComplex (a b c d : Binary) : Except Fault Scalar :=
  let f := Format.double
  let (mul, add, sub, div) := (Binary.mul f, Binary.add f, Binary.sub f, Binary.div f)
  if c.isZero && d.isZero then .error .divisionByZero
  else if Binary.le d.abs c.abs then
    let ratio := div d c
    let scale := add c (mul d ratio)
    .ok (.complex (div (add a (mul b ratio)) scale) (div (sub b (mul a ratio)) scale))
  else
    let ratio := div c d
    let scale := add (mul c ratio) d
    .ok (.complex (div (add (mul a ratio) b) scale) (div (sub (mul b ratio) a) scale))

def applyComplexes (op : Op) (a b c d : Binary) : Except Fault Scalar :=
  match op with
  | .div => divLiteralComplex a b c d
  | op =>
    let (re, im) := applyComplex .double op a b c d
    .ok (.complex re im)

def applyDecimals (op : Op) (a b : DecimalValue) : Except Fault Scalar :=
  let result := match op with
    | .add => a.add b
    | .sub => a.sub b
    | .mul => a.mul b
    | _ => a.div b
  result.map .decimal

def decimalOfInt (i : Int) : DecimalValue :=
  .finite ⟨i < 0, i.natAbs, 0⟩

/-- A sum, difference, product or quotient of two numbers; `fault` is that of kinds that do not
combine. -/
def applyNumerics (op : Op) (fault : Fault) (x y : Numeric) : Except Fault Scalar :=
  match x, y with
  | .decimal a, .decimal b => applyDecimals op a b
  | .decimal a, .int j => applyDecimals op a (decimalOfInt j)
  | .int i, .decimal b => applyDecimals op (decimalOfInt i) b
  | .decimal _, _ | _, .decimal _ => .error fault
  | .complex a b, .complex c d => applyComplexes op a b c d
  | .complex a b, y => do applyComplexes op a b (← y.toReal) .zero
  | x, .complex c d => do applyComplexes op (← x.toReal) .zero c d
  | .real a, y => do applyReals op a (← y.toReal)
  | x, .real b => do applyReals op (← x.toReal) b
  | .ratio a b, .ratio c d => applyRatios op a b c d
  | .ratio a b, .int j => applyRatios op a b j 1
  | .int i, .ratio c d => applyRatios op i 1 c d
  | .int i, .int j => applyIntegers op i j

def pickLiteral (larger : Bool) (x y : Scalar) : Except Fault Scalar := do
  let first ← (compare? x y).map fun order =>
    order == some .eq || order == some (if larger then .gt else .lt)
  return if first then x else y

def repeated {α : Type} (count : Int) (xs : List α) : List α :=
  (List.replicate count.toNat xs).flatten

def count? : Scalar → Option Int
  | .bool b => some b.toNat
  | .int i => some i
  | .number (.int ..) (.int i) => some i
  | _ => none

def repeat? (x : Scalar) (count : Int) : Option Scalar :=
  match x with
  | .list xs => some (.list (repeated count xs))
  | .tuple xs => some (.tuple (repeated count xs))
  | .text s => some (.text (String.ofList (repeated count s.toList)))
  | _ => none

def repetition? (x y : Scalar) : Option Scalar :=
  match y.count? with
  | some n => x.repeat? n
  | none => x.count?.bind y.repeat?

def applyPlain (op : Op) (x y : Scalar) : Except Fault Scalar :=
  match op, x, y with
  | .maximum, x, y => pickLiteral true x y
  | .minimum, x, y => pickLiteral false x y
  | .add, .list xs, .list ys => .ok (.list (xs ++ ys))
  | .add, .tuple xs, .tuple ys => .ok (.tuple (xs ++ ys))
  | .add, .text s, .text t => .ok (.text (s ++ t))
  | op, x, y =>
    match x.numeric?, y.numeric? with
    | some a, some b => applyNumerics op (noOperation op x y) a b
    | _, _ =>
      match if op = .mul then repetition? x y else none with
      | some z => .ok z
      | none => .error (noOperation op x y)

def resultType (op : Op) (d : DType) : Except Fault DType :=
  match d, op with
  | .object, _ => .ok .object
  | .text _, .div => .error .operandTypes
  | .text _, _ => .error .entryTypes
  | .bool, .sub => .error .operandTypes
  | .bool, .div | .int .., .div => .ok .float64
  | d, _ => .ok d

def applyNumbers (op : Op) (d : DType) (x : Scalar) (e : DType) (y : Scalar) :
    Except Fault Scalar := do
  let common := d.promote e
  let result ← resultType op common
  return .number result (apply common op (x.cast common) (y.cast common))

def meetingType (d : DType) : Scalar → Option DType
  | .bool _ => some .bool
  | .int _ => some (DType.adapt .int d)
  | .real _ => some (DType.adapt .real d)
  | .complex .. => some (DType.adapt .complex d)
  | _ => none

/-- The operation on two values of their own. A number with an element type meets a literal number
in an element type, and any other value as the literal that it is. -/
def applyLiteral (op : Op) (x y : Scalar) : Except Fault Scalar :=
  match x, y with
  | .number d a, .number e b => applyNumbers op d a e b
  | .number d a, y =>
    match meetingType d y with
    | some e => applyNumbers op d a e (y.cast e)
    | none => if (repetition? x y).isSome then applyPlain op x y else applyPlain op a.toLiteral y
  | x, .number e b =>
    match meetingType e x with
    | some d => applyNumbers op d (x.cast d) e b
    | none => if (repetition? x y).isSome then applyPlain op x y else applyPlain op x b.toLiteral
  | x, y => applyPlain op x y

/-! ## Functions of one literal -/

def absLiteral : Scalar → Except Fault Scalar
  | .bool b => .ok (.int b.toNat)
  | .int i => .ok (.int i.natAbs)
  | .real r => .ok (.real r.abs)
  | .complex re im =>
    match Binary.hypot .double re im with
    | .infinite s =>
      if re.isFinite && im.isFinite then .error .overflow else .ok (.real (.infinite s))
    | r => .ok (.real r)
  | .ratio num den => .ok (.ratio num.natAbs den)
  | .decimal d => d.abs.map .decimal
  | .number d x => .ok (.number d.realPart (abs d x))
  | _ => .error .operandTypes

def signLiteral (x : Scalar) : Except Fault Scalar := do
  match ← compare? x (.int 0) with
  | some .lt => return .int (-1)
  | some .eq => return .int 0
  | some .gt => return .int 1
  | none => throw .operandTypes

def conjLiteral? : Scalar → Option Scalar
  | .bool b => some (.int b.toNat)
  | .number d x => some (.number d x.conj)
  | x => x.numeric?.map fun _ => x.conj

def rootLiteral : Scalar → Except Fault Scalar
  | .decimal d => d.sqrt.map .decimal
  | _ => .error .operandTypes

/-- The product of two complex literals, `1` taking part as the first factor. A part that is
infinite is an overflow. -/
def squareComplex (re im : Binary) : Except Fault Scalar :=
  let (p, q) := mulComplex .double re im re im
  let (p, q) := mulComplex .double (Binary.ofInt .double 1) .zero p q
  match p, q with
  | .infinite _, _ | _, .infinite _ => .error .overflow
  | p, q => .ok (.complex p q)

def squareLiteral (x : Scalar) : Except Fault Scalar :=
  match x with
  | .real a =>
    match a, Binary.mul .double a a with
    | .finite .., .infinite _ => .error .overflow
    | _, b => .ok (.real b)
  | .complex re im => squareComplex re im
  | .number .bool a => applyNumbers .mul (.int true 8) (a.cast (.int true 8)) .bool (.bool true)
  | .number d a => applyNumbers .mul d a d a
  | x =>
    match x.numeric? with
    | some a => applyNumerics .mul .operandTypes a a
    | none => .error .operandTypes

end Scalar

end ProxGrad
