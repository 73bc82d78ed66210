import ProxGrad.Decimal.Shortest
import ProxGrad.Text.Padding

/-!
# Written forms of numbers

A `DecimalStyle` holds the decisions of one written form: how digits are chosen, and between which
numbers they stand around a point instead of before an exponent.
-/

set_option autoImplicit false

namespace ProxGrad

/-- The decisions of one written form of a finite number. -/
structure DecimalStyle where
  /-- The number of significant digits; the fewest that read back when absent. -/
  significant : Option Nat
  /-- The exponent of the power of ten below which a number that is not below `1e-4` is written
  around a point. No number is when absent. -/
  positionalBelow : Option Nat
  /-- Whether the point of a whole number is followed by a zero. -/
  trailingZero : Bool
  signedZero : Bool

namespace DecimalStyle

def result : DecimalStyle :=
  { significant := some 8, positionalBelow := none, trailingZero := true, signedZero := false }

/-- The fewest digits that read back, around a point in the range `1e-4 ≤ x < 10 ^ most`. -/
def shortest (most : Nat) : DecimalStyle :=
  { significant := none, positionalBelow := some most, trailingZero := true, signedZero := true }

/-- The same without the point of a whole number, for the parts of a complex one. -/
def part (most : Nat) : DecimalStyle :=
  { shortest most with trailingZero := false }

def isPositional (style : DecimalStyle) (num den : Nat) : Bool :=
  match style.positionalBelow with
  | none => false
  | some most => den ≤ num * Nat.pow 10 4 && num < den * Nat.pow 10 most

end DecimalStyle

def writtenExponent (e : Int) : String :=
  let digits := toString e.natAbs
  "e" ++ (if e < 0 then "-" else "+") ++ (if digits.length < 2 then "0" ++ digits else digits)

def writtenPositional (style : DecimalStyle) (digits : String) (magnitude : Int) : String :=
  if magnitude < 0 then
    "0." ++ repeated '0' (-magnitude - 1).toNat ++ digits
  else
    let whole := magnitude.toNat + 1
    let padded := digits ++ repeated '0' (whole - digits.length)
    let fraction := (padded.drop whole).toString
    (padded.take whole).toString ++
      (if fraction.isEmpty then if style.trailingZero then ".0" else "" else "." ++ fraction)

def writtenScientific (digits : String) (magnitude : Int) : String :=
  let fraction := (digits.drop 1).toString
  (digits.take 1).toString ++ (if fraction.isEmpty then "" else "." ++ fraction) ++
    writtenExponent magnitude

def Binary.written (style : DecimalStyle) (f : Format) : Binary → String
  | .nan => "nan"
  | .infinite s => if s then "-inf" else "inf"
  | .finite s m e =>
    if m = 0 then
      let digits := repeated '0' (style.significant.getD 1)
      (if s && style.signedZero then "-" else "") ++
        (if style.positionalBelow.isSome then writtenPositional style digits 0
          else writtenScientific digits 0)
    else
      let (num, den) := dyadicRatio m e
      let d := match style.significant with
        | some count => significantDigits count num den
        | none => shortestDigits f m e
      (if s then "-" else "") ++
        (if style.isPositional num den then writtenPositional style d.text d.magnitude
          else writtenScientific d.text d.magnitude)

end ProxGrad
