import ProxGrad.Numeric.Literal
import ProxGrad.Text.Quoted

/-!
# Entries of another element type

Conversion of a value of its own to an entry of an element type. Numbers must be in range, text is
read as a number, and what is no number is refused with the type it has. Numbers that already have
an element type are cut.
-/

set_option autoImplicit false

namespace ProxGrad

/-- Complex numbers in text: a real, an imaginary part before its unit, or both, in parentheses or
not. -/
def readComplex? (f : Format) (text : String) : Option (Binary × Binary) :=
  let cs := trimBlanks (text.toList.map plainDigit)
  let inner := match cs, cs.getLast? with
    | '(' :: rest, some ')' => some (trimBlanks rest.dropLast)
    | '(' :: _, _ => none
    | cs, _ => some cs
  inner.bind fun cs =>
    match cs.getLast? with
    | some last =>
      if last == 'j' || last == 'J' then
        let body := cs.dropLast
        let split := (List.range body.length).reverse.find? fun i =>
          i ≠ 0 && (body.getD i ' ' == '+' || body.getD i ' ' == '-')
            && body.getD (i - 1) ' ' != 'e' && body.getD (i - 1) ' ' != 'E'
        match split with
        | some i => do return (← real? (body.take i), ← unit? (body.drop i))
        | none => do return (← real? ['0'], ← unit? body)
      else do return (← real? cs, ← real? ['0'])
    | none => none
where
  real? (cs : List Char) : Option Binary :=
    if cs.any isNumberBlank then none else readReal? f (String.ofList cs)
  /-- The factor of the imaginary unit, which may be a sign alone or nothing. -/
  unit? (cs : List Char) : Option Binary :=
    match cs with
    | [] | ['+'] => real? ['1']
    | ['-'] => real? ['-', '1']
    | cs => real? cs

namespace Scalar

def realInRange (p : Precision) : Binary → Except Fault Scalar
  | .infinite _ => .error .overflow
  | r => .ok (.real (r.convert p.format))

mutual

/-- A value of its own as an entry of a real type: through double precision at least, absent values
being NaN. -/
def realOfValue (p : Precision) : Scalar → Except Fault Scalar
  | .bool b => realInRange p (Binary.ofInt .double b.toNat)
  | .int i => realInRange p (Binary.ofInt p.reading.format i)
  | .ratio num den => realInRange p (Binary.ofRatio .double (num < 0) num.natAbs den)
  | .real r => .ok (.real (r.convert p.format))
  | .decimal (.finite n) => .ok (.real ((n.toBinary .double).convert p.format))
  | .decimal (.infinite s) => .ok (.real (.infinite s))
  | .decimal (.nan _ signaling _) =>
    if signaling then .error (.conversion .signalingNaN) else .ok (.real .nan)
  | .text s =>
    match readReal? p.reading.format s with
    | some r => .ok (.real (r.convert p.format))
    | none => .error (.conversion (.realText (quoted s)))
  | .brokenText codes => .error (.conversion (.realText (quotedNumbers codes)))
  | .absent => .ok (.real .nan)
  | .number _ (.text s) => realOfValue p (.text s)
  | .number _ x => .ok (x.cast (.real p))
  | .table _ [] entries => realOfOnly p entries
  | .list _ | .tuple _ | .table .. => .error (.conversion .sequence)
  | x => .error (.conversion (.notReal x.valueType))

/-- The only entry of an array as an entry of a real type. A complex one has no real. -/
def realOfOnly (p : Precision) : List Scalar → Except Fault Scalar
  | [x] => realOfValue p x
  | _ => .error (.conversion .sequence)

end

def complexOfText (p : Precision) (s : String) : Except Fault Scalar :=
  match readComplex? p.reading.format s with
  | some (re, im) => .ok (.complex (re.convert p.format) (im.convert p.format))
  | none =>
    if (dropUnderscores? ' ' (s.toList.map plainDigit)).isNone then
      .error (.conversion (.complexDigits (quoted s)))
    else .error (.conversion .complexText)

def complexOfValue (p : Precision) (x : Scalar) : Except Fault Scalar :=
  match x with
  | .complex .. => .ok (x.cast (.complex p))
  | .text s | .number _ (.text s) | .table _ [] [.text s] => complexOfText p s
  | .brokenText _ => .error (.conversion .complexText)
  | .absent => .ok (.complex .nan .nan)
  | .number _ x | .table _ [] [x] => .ok (x.cast (.complex p))
  | .list _ | .tuple _ | .dict _ | .table .. | .foreign .. =>
    .error (.conversion (.notComplex x.valueType))
  | x => (realOfValue p x).map (cast (.complex p))

/-- The integer part of a decimal, toward zero; none of one with more digits before its point than
any integer type holds. -/
def truncateDecimal? (n : Numeral) : Option Int :=
  let signed (m : Nat) : Int := if n.negative then -m else m
  if n.digits = 0 then some 0
  else if 0 ≤ n.exponent then
    if 100 < n.exponent then none else some (signed (n.digits * Nat.pow 10 n.exponent.toNat))
  else if (digitCount n.digits : Int) < -n.exponent then some 0
  else some (signed (n.digits / Nat.pow 10 (-n.exponent).toNat))

def heldInteger (signed : Bool) (bits : Nat) (i : Int) : Except Fault Scalar :=
  if DType.holds signed bits i then .ok (.int i) else .error .overflow

/-- The integer part of a number as an entry of an integer type: wrapped, if it fits a word of 64
bits. Narrow types go through a signed word; the unsigned types of 32 and 64 bits take an unsigned
one as well. -/
def wrappedInteger (signed : Bool) (bits : Nat) (i : Option Int) : Except Fault Scalar :=
  match i with
  | some i =>
    if DType.holds true 64 i || (!signed && 32 ≤ bits && DType.holds false 64 i) then
      .ok (.int (DType.wrap signed bits i))
    else .error .overflow
  | none => .error .overflow

mutual

def integerOfValue (signed : Bool) (bits : Nat) : Scalar → Except Fault Scalar
  | .bool b => .ok (.int b.toNat)
  | .int i => heldInteger signed bits i
  | .real .nan => .error (.conversion .nanToInteger)
  | .real r => wrappedInteger signed bits r.truncate?
  | .ratio num den => wrappedInteger signed bits (some (num.tdiv den))
  | .decimal (.finite n) => wrappedInteger signed bits (truncateDecimal? n)
  | .decimal (.infinite _) => .error .overflow
  | .decimal (.nan ..) => .error (.conversion .decimalToInteger)
  | .text s =>
    match readInteger? s with
    | some i => heldInteger signed bits i
    | none => .error (.conversion (.integerText (quoted s)))
  | .brokenText codes => .error (.conversion (.integerText (quotedNumbers codes)))
  | .number _ (.text s) => integerOfValue signed bits (.text s)
  | .number _ x => .ok (x.cast (.int signed bits))
  | .table _ [] entries => integerOfOnly signed bits entries
  | .list _ | .tuple _ | .table .. => .error (.conversion .sequence)
  | x => .error (.conversion (.notInteger x.valueType))

def integerOfOnly (signed : Bool) (bits : Nat) : List Scalar → Except Fault Scalar
  | [x] => integerOfValue signed bits x
  | _ => .error (.conversion .sequence)

end

/-- A value of its own as an entry of another type: in range, and of a kind that has a value of
that type. -/
def ofValue (d : DType) (x : Scalar) : Except Fault Scalar :=
  match d with
  | .object | .text _ => .ok x
  | .bool => x.truth?.map .bool
  | .real p => realOfValue p x
  | .complex p => complexOfValue p x
  | .int signed bits => integerOfValue signed bits x

/-- An entry of the second type as one of the first. Entries that are values of their own, and
text, are checked; all others are cut. -/
def convert (d source : DType) (x : Scalar) : Except Fault Scalar :=
  match source with
  | .object | .text _ => ofValue d x
  | _ => .ok (x.cast d)

end Scalar

end ProxGrad
