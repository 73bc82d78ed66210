import ProxGrad.Binary.Arithmetic
import ProxGrad.Decimal.Shortest
import ProxGrad.Decimal.Numeral
import ProxGrad.Fault

/-!
# Decimal arithmetic

Decimal numbers with signed zeros, infinities and NaNs. A result keeps twenty-eight significant
digits, a half going to the even one, and an exponent in a fixed range; `DecimalValue.finish` is the
one place where a result is cut to that form. A NaN that signals has no result in any operation.
Powers of ten are taken only of exponents that the digits at hand bound.
-/

set_option autoImplicit false

namespace ProxGrad

/-- A decimal number. -/
inductive DecimalValue where
  | finite (n : Numeral)
  | infinite (negative : Bool)
  /-- No number, with the number that tells why. -/
  | nan (negative signaling : Bool) (payload : Nat)
deriving DecidableEq, Repr

def digitCount (n : Nat) : Nat :=
  (toString n).length

namespace DecimalValue

/-- The number of significant digits of a result. -/
def precision : Nat := 28

/-- The greatest exponent of a leading digit. -/
def maxExponent : Int := 999999

/-- The least exponent of a last digit. -/
def minExponent : Int := -1000026

def invalid {α : Type} : Except Fault α :=
  .error (.decimal .invalid)

/-! ## Reading -/

/-- Reads a decimal literal: underscores do not count, nor do blanks around it. Text that is none of
these forms is not a number. -/
def ofText (text : String) : DecimalValue :=
  let cs := trimBlanks ((text.toList.map plainDigit).filter (· != '_'))
  let (negative, word) := takeSign (cs.map Char.toLower)
  let name := String.ofList word
  if name == "inf" || name == "infinity" then .infinite negative
  else
    let (signaling, word) := match word with
      | 's' :: rest => (true, rest)
      | rest => (false, rest)
    match word with
    | 'n' :: 'a' :: 'n' :: digits => .nan negative signaling (natOfDigits digits)
    | _ =>
      match Numeral.read? cs with
      | some n => .finite n
      | none => .nan false false 0

/-! ## Rounding -/

/-- The number `± digits * 10 ^ exponent` as a result. With `inexact` the magnitude lies strictly
between `digits` and `digits + 1`, and there are more digits than a result keeps. -/
def finish (negative : Bool) (digits : Nat) (exponent : Int) (inexact : Bool) :
    Except Fault DecimalValue :=
  let count := digitCount digits
  let excess := max (count - precision) (minExponent - exponent).toNat
  if count < excess then .ok (.finite ⟨negative, 0, max exponent minExponent⟩)
  else
    let unit := Nat.pow 10 excess
    let quotient := digits / unit
    let twice := 2 * (digits % unit)
    let up := unit < twice || (unit == twice && (inexact || quotient % 2 == 1))
    let rounded := if up then quotient + 1 else quotient
    let (rounded, exponent) :=
      if rounded = Nat.pow 10 precision then (rounded / 10, exponent + excess + 1)
      else (rounded, exponent + excess)
    if rounded = 0 then .ok (.finite ⟨negative, 0, min exponent maxExponent⟩)
    else if maxExponent < exponent + digitCount rounded - 1 then .error (.decimal .overflow)
    else .ok (.finite ⟨negative, rounded, exponent⟩)

def rounded : DecimalValue → Except Fault DecimalValue
  | .finite n => finish n.negative n.digits n.exponent false
  | .nan _ true _ => invalid
  | x => .ok x

/-! ## Arithmetic -/

/-- The result of an operation on two numbers of which one is a NaN: the first that is one. -/
def firstNaN : DecimalValue → DecimalValue → Except Fault DecimalValue
  | .nan _ true _, _ | _, .nan _ true _ => invalid
  | .nan s _ p, _ => .ok (.nan s false p)
  | _, y => .ok y

/-- The digits of two positive numbers on the grid of the smaller exponent. A number too small to
show in a sum stands for any such. -/
def align (m n : Numeral) : Int × Int × Int :=
  let signed (n : Numeral) (digits : Nat) : Int := if n.negative then -digits else digits
  let shrink (large small : Numeral) : Numeral :=
    let least := large.exponent +
      min (-1) ((digitCount large.digits : Int) - precision - 2)
    if digitCount small.digits + small.exponent - 1 < least then
      { small with digits := 1, exponent := least }
    else small
  if m.exponent < n.exponent then
    let m := shrink n m
    let power := Nat.pow 10 (n.exponent - m.exponent).toNat
    (signed m m.digits, signed n (n.digits * power), m.exponent)
  else
    let n := shrink m n
    let power := Nat.pow 10 (m.exponent - n.exponent).toNat
    (signed m (m.digits * power), signed n n.digits, n.exponent)

def addFinite (m n : Numeral) : Except Fault DecimalValue :=
  if m.digits = 0 && n.digits = 0 then
    finish (m.negative && n.negative) 0 (min m.exponent n.exponent) false
  else if m.digits = 0 then finish n.negative n.digits n.exponent false
  else if n.digits = 0 then finish m.negative m.digits m.exponent false
  else
    let (a, b, e) := align m n
    finish (a + b < 0) (a + b).natAbs e false

def neg : DecimalValue → DecimalValue
  | .finite n => .finite { n with negative := !n.negative }
  | .infinite s => .infinite !s
  | .nan s q p => .nan (!s) q p

def add : DecimalValue → DecimalValue → Except Fault DecimalValue
  | .finite m, .finite n => addFinite m n
  | .infinite s, .infinite t => if s == t then .ok (.infinite s) else invalid
  | .infinite s, .finite _ => .ok (.infinite s)
  | .finite _, .infinite t => .ok (.infinite t)
  | x, y => firstNaN x y

def sub (x y : DecimalValue) : Except Fault DecimalValue :=
  match y with
  | .nan .. => firstNaN x y
  | y => add x y.neg

def mul : DecimalValue → DecimalValue → Except Fault DecimalValue
  | .finite m, .finite n =>
    finish (m.negative != n.negative) (m.digits * n.digits) (m.exponent + n.exponent) false
  | .infinite s, .infinite t => .ok (.infinite (s != t))
  | .infinite s, .finite n => if n.digits = 0 then invalid else .ok (.infinite (s != n.negative))
  | .finite m, .infinite t => if m.digits = 0 then invalid else .ok (.infinite (m.negative != t))
  | x, y => firstNaN x y

/-- A quotient without the zeros at its end, as far as they lie below the exponent that the operands
have. -/
def dropZeros (ideal : Int) : Nat → Nat → Int → Nat × Int
  | 0, digits, e => (digits, e)
  | fuel + 1, digits, e =>
    if e < ideal && digits % 10 == 0 then dropZeros ideal fuel (digits / 10) (e + 1)
    else (digits, e)

def divFinite (m n : Numeral) : Except Fault DecimalValue :=
  let negative := m.negative != n.negative
  let ideal := m.exponent - n.exponent
  if n.digits = 0 then if m.digits = 0 then invalid else .error (.decimal .divisionByZero)
  else if m.digits = 0 then finish negative 0 ideal false
  else
    let shift : Int := (digitCount n.digits : Int) - digitCount m.digits + precision + 1
    let (num, den) := scaleByPowerOfTen m.digits n.digits shift
    let e := ideal - shift
    if num % den = 0 then
      let (digits, e) := dropZeros ideal (digitCount (num / den)) (num / den) e
      finish negative digits e false
    else finish negative (num / den) e true

def div : DecimalValue → DecimalValue → Except Fault DecimalValue
  | .finite m, .finite n => divFinite m n
  | .infinite _, .infinite _ => invalid
  | .infinite s, .finite n => .ok (.infinite (s != n.negative))
  | .finite m, .infinite t => .ok (.finite ⟨m.negative != t, 0, minExponent⟩)
  | x, y => firstNaN x y

def abs : DecimalValue → Except Fault DecimalValue
  | .finite n => finish false n.digits n.exponent false
  | .infinite _ => .ok (.infinite false)
  | .nan _ true _ => invalid
  | .nan s false p => .ok (.nan s false p)

/-- The square root; a zero keeps its sign. The digits are widened to twice the precision, at an
even exponent, before their integer root is taken. -/
def sqrt : DecimalValue → Except Fault DecimalValue
  | .infinite false => .ok (.infinite false)
  | .infinite true => invalid
  | .nan _ true _ => invalid
  | .nan s false p => .ok (.nan s false p)
  | .finite n =>
    let half := n.exponent.fdiv 2
    if n.digits = 0 then finish n.negative 0 half false
    else if n.negative then invalid
    else
      let digits := if n.exponent % 2 = 0 then n.digits else n.digits * 10
      let shift : Int := (precision + 2 : Int) - ((digitCount digits + 1) / 2 : Nat)
      let (num, den) := scaleByPowerOfTen digits 1 (2 * shift)
      let widened := num / den
      let root := integerRoot widened
      if root * root = widened && num % den = 0 then
        let (digits, e) := dropZeros half (digitCount root) root (half - shift)
        finish false digits e false
      else finish false root (half - shift) true

end DecimalValue

end ProxGrad
