import ProxGrad.Decimal.Written
import ProxGrad.Numeric.Scalar
import ProxGrad.Text.Padding
import ProxGrad.Text.Quoted

/-!
# Entries in columns

The entries of an array in writing, all of one width. Reals have the fewest digits that read back,
at most eight behind the point; where their sizes differ too much for a point in one place all of
them have an exponent, and then equally many digits.
-/

set_option autoImplicit false

namespace ProxGrad

namespace Precision

/-- The exponent of the power of ten from which on a single number is written with an exponent. -/
def positionalBelow : Precision → Nat
  | .half => 3
  | .single => 6
  | .double => 16
  | .extended => 18

def columnBelow : Precision → Nat
  | .half => 3
  | .single => 6
  | .double | .extended => 8

end Precision

/-- A finite real in writing: its digits before and behind the point, the sign with the first, and
the exponent. -/
structure RealParts where
  whole : String
  fraction : String
  exponent : Int

namespace RealParts

/-- The digits of a column at most eight behind the point, the first one before it if `scientific`.
-/
def fewest (f : Format) (scientific : Bool) (m : Nat) (e : Int) : DecimalDigits :=
  let d := shortestDigits f m e
  let (num, den) := dyadicRatio m e
  let places : Int := if scientific then 8 - d.magnitude else 8
  if -d.exponent ≤ places then d
  else
    let (n, k) := scaleByPowerOfTen num den places
    (⟨roundQuotient n k, -places⟩ : DecimalDigits).trim

def positional (sign : String) (d : DecimalDigits) : RealParts :=
  let magnitude := d.magnitude
  if d.digits = 0 then ⟨sign ++ "0", "", 0⟩
  else if magnitude < 0 then ⟨sign ++ "0", repeated '0' (-magnitude - 1).toNat ++ d.text, 0⟩
  else
    let whole := magnitude.toNat + 1
    let padded := d.text ++ repeated '0' (whole - d.text.length)
    ⟨sign ++ (padded.take whole).toString, (padded.drop whole).toString, 0⟩

def scientific (sign : String) (d : DecimalDigits) : RealParts :=
  ⟨sign ++ (d.text.take 1).toString, (d.text.drop 1).toString, d.magnitude⟩

def signOf (signed negative : Bool) : String :=
  if negative then "-" else if signed then "+" else ""

def ofReal? (f : Format) (signed withExponent : Bool) : Binary → Option RealParts
  | .finite s m e =>
    let sign := signOf signed s
    if m = 0 then some ⟨sign ++ "0", "", 0⟩
    else
      let d := fewest f withExponent m e
      some (if withExponent then scientific sign d else positional sign d)
  | _ => none

def ofRealAt (f : Format) (signed : Bool) (places : Nat) (s : Bool) (m : Nat) (e : Int) :
    RealParts :=
  let sign := signOf signed s
  let parts :=
    if m = 0 then ⟨sign ++ "0", "", 0⟩ else scientific sign (digitsAt f m e (places + 1))
  { parts with fraction := parts.fraction ++ repeated '0' (places - parts.fraction.length) }

def exponentText (p : RealParts) (width : Nat) : String :=
  let digits := toString p.exponent.natAbs
  "e" ++ (if p.exponent < 0 then "-" else "+") ++ repeated '0' (width - digits.length) ++ digits

def exponentWidth (p : RealParts) : Nat :=
  max 2 (toString p.exponent.natAbs).length

end RealParts

/-- Whether a column of reals is written with exponents: from the limit of the precision on, below
`1e-4`, or spread over more than three decades. -/
def needsExponent (p : Precision) (xs : List Binary) : Bool :=
  let f := p.format
  let sizes := (xs.filter fun x => x.isFinite && !x.isZero).map Binary.abs
  match sizes with
  | [] => false
  | x :: rest =>
    let largest := rest.foldl (fun a b => if Binary.lt a b then b else a) x
    let least := rest.foldl (fun a b => if Binary.lt b a then b else a) x
    Binary.le (Binary.ofInt f (Nat.pow 10 p.columnBelow)) largest
      || Binary.lt least (Binary.ofDecimal f false 1 (-4))
      || Binary.lt (Binary.ofInt f 1000) (Binary.div f largest least)

def specialText (signed : Bool) (x : Binary) : String :=
  RealParts.signOf signed x.isNegative ++ (if x.isNaN then "nan" else "inf")

/-- A column of reals in writing. With `signed` a plus sign stands before what is not negative. -/
def realColumn (p : Precision) (signed : Bool) (xs : List Binary) : List String :=
  let f := p.format
  let scientific := needsExponent p xs
  let parts := xs.filterMap (RealParts.ofReal? f signed scientific)
  let places := greatest 0 (parts.map fun q => q.fraction.length)
  let exponentWidth := greatest 0 (parts.map RealParts.exponentWidth)
  let left := greatest 0 (parts.map fun q => q.whole.length)
  let right := if scientific then exponentWidth + 2 + places else places
  let minus := signed || xs.any fun x => !x.isFinite && x.isNegative
  let left :=
    if xs.all Binary.isFinite then left
    else greatest left [3 - (right + 1), 3 + minus.toNat - (right + 1)]
  xs.map fun x => match x with
    | .finite s m e =>
      if scientific then
        let q := RealParts.ofRealAt f signed places s m e
        padStart left q.whole ++ "." ++ q.fraction ++ q.exponentText exponentWidth
      else
        match RealParts.ofReal? f signed false x with
        | some q => padStart left q.whole ++ "." ++ padEnd right q.fraction
        | none => ""
    | x => padStart (left + right + 1) (specialText signed x)

/-- A column of complex numbers: a column of real parts and one of signed imaginary parts, the mark
of the latter directly behind the digits. -/
def complexColumn (p : Precision) (res ims : List Binary) : List String :=
  (realColumn p false res).zipWith (fun re im =>
    let body := (im.dropEndWhile ' ').toString
    re ++ body ++ "j" ++ repeated ' ' (im.length - body.length)) (realColumn p true ims)

def truthText (b : Bool) : String :=
  if b then "True" else "False"

namespace Scalar

/-- The entries of an array of a numeric type or of text in writing. Truth values of an array with
sides have the width of the longer one. -/
def columns (d : DType) (alone : Bool) (xs : List Scalar) : List String :=
  match d with
  | .bool => xs.map fun x => padStart (if alone then 4 else 5) (truthText x.toBool)
  | .real p => realColumn p false (xs.map (toReal p.format))
  | .complex p =>
    let part (pick : Binary → Binary → Binary) : List Binary :=
      xs.map fun x => match x with
        | .complex re im => pick re im
        | x => x.toReal p.format
    complexColumn p (part fun re _ => re) (part fun _ im => im)
  | .int .. =>
    let texts := xs.map fun x => match x with
      | .int i => toString i
      | _ => ""
    let width := greatest 0 (texts.map String.length)
    texts.map (padStart width)
  | .text _ => xs.map fun x => match x with
    | .text s => quoted s
    | _ => ""
  | .object => xs.map fun _ => ""

end Scalar

end ProxGrad
