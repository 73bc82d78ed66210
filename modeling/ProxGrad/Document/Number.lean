import ProxGrad.Binary.Arithmetic
import ProxGrad.Decimal.Numeral
import ProxGrad.Fault

/-!
# Numbers in documents

The values of scalars whose tag is a number. The tag may stand on text of any form, so the reading
has its own faults.
-/

set_option autoImplicit false

namespace ProxGrad.Document

/-- The text of a number without underscores, its sign apart. Nothing, where no text is left to
look at. -/
def signed? (text : List Char) : Except Fault (Bool × List Char) :=
  match text.filter (· != '_') with
  | [] => .error (.document .emptyNumeral)
  | cs => .ok (takeSign cs)

def digitValue? (c : Char) : Option Nat :=
  if c.isDigit then some (c.toNat - '0'.toNat)
  else if 'a' ≤ c && c ≤ 'z' then some (c.toNat - 'a'.toNat + 10)
  else if 'A' ≤ c && c ≤ 'Z' then some (c.toNat - 'A'.toNat + 10)
  else none

def baseLetter? : Nat → Option Char
  | 2 => some 'b'
  | 8 => some 'o'
  | 16 => some 'x'
  | _ => none

def dropBase (base : Nat) : List Char → List Char
  | '0' :: c :: cs => if baseLetter? base = some c.toLower then cs else '0' :: c :: cs
  | cs => cs

/-- Decimal integers have at most this many digits. -/
def decimalLimit : Nat := 4300

def integerIn (base : Nat) (text : List Char) : Except Fault Int :=
  let (negative, cs) := takeSign (trimBlanks (text.map plainDigit))
  let cs := dropBase base cs
  if cs.isEmpty || (base == 10 && cs.length > decimalLimit) then .error (.document .malformed)
  else
    match cs.mapM fun c => (digitValue? c).filter (· < base) with
    | none => .error (.document .malformed)
    | some ds =>
      let n := ds.foldl (fun n d => base * n + d) 0
      .ok (if negative then -n else n)

def colonParts (text : List Char) : List (List Char) :=
  text.foldr (fun c parts =>
    match parts with
    | part :: rest => if c == ':' then [] :: part :: rest else (c :: part) :: rest
    | [] => [[c]]) [[]]

/-- The value of an integer. The base is announced, or sixty where there are colons; a leading zero
announces eight. -/
def integerValue (text : List Char) : Except Fault Int := do
  let (negative, cs) ← signed? text
  let n ←
    match cs with
    | [] => .error (.document .emptyNumeral)
    | ['0'] => .ok 0
    | '0' :: 'b' :: ds => integerIn 2 ds
    | '0' :: 'x' :: ds => integerIn 16 ds
    | '0' :: _ => integerIn 8 cs
    | _ =>
      if cs.contains ':' then do
        let parts ← (colonParts cs).mapM (integerIn 10)
        .ok (parts.foldl (fun n part => 60 * n + part) 0)
      else integerIn 10 cs
  .ok (if negative then -n else n)

def realIn (text : List Char) : Except Fault Binary :=
  match readReal? .double (String.ofList text) with
  | some x => .ok x
  | none => .error (.document .malformed)

/-- The sum of parts to the base sixty, the last part first. A place whose weight is beyond the
reals has no value. -/
def sixtiethsFrom (weight : Nat) (sum : Binary) : List Binary → Except Fault Binary
  | [] => .ok sum
  | part :: parts =>
    let factor := Binary.ofInt .double weight
    if factor.isFinite then
      sixtiethsFrom (60 * weight) (Binary.add .double sum (Binary.mul .double part factor)) parts
    else .error (.document .range)

def realValue (text : List Char) : Except Fault Binary := do
  let (negative, cs) ← signed? (text.map Char.toLower)
  if String.ofList cs == ".nan" then return .nan
  let x ←
    if String.ofList cs == ".inf" then .ok (.infinite false)
    else if cs.contains ':' then do
      let parts ← (colonParts cs).mapM realIn
      sixtiethsFrom 1 .zero parts.reverse
    else realIn cs
  .ok (if negative then x.neg else x)

end ProxGrad.Document
