import ProxGrad.Binary.Basic

/-!
# Decimal digits of binary numbers

Two exact conversions of a positive dyadic rational to decimal digits: a fixed number of
significant digits, a half going to the even digit, and the fewest digits that read back as the
same number of a format, nearest to it among those, a tie going to the even digit.
-/

set_option autoImplicit false

namespace ProxGrad

/-- A positive decimal number `digits * 10 ^ exponent`. -/
structure DecimalDigits where
  digits : Nat
  exponent : Int
deriving DecidableEq, Repr

namespace DecimalDigits

def text (d : DecimalDigits) : String :=
  toString d.digits

def magnitude (d : DecimalDigits) : Int :=
  d.exponent + d.text.length - 1

def trim (d : DecimalDigits) : DecimalDigits :=
  go d.text.length d
where
  go : Nat → DecimalDigits → DecimalDigits
    | 0, d => d
    | fuel + 1, d =>
      if d.digits % 10 == 0 && d.digits != 0 then go fuel ⟨d.digits / 10, d.exponent + 1⟩ else d

end DecimalDigits

def scaleByPowerOfTen (num den : Nat) (k : Int) : Nat × Nat :=
  if k < 0 then (num, den * Nat.pow 10 (-k).toNat) else (num * Nat.pow 10 k.toNat, den)

/-- The exponent of the leading decimal digit of `num / den`, both positive: an estimate from
below by the binary logarithm, raised while the next power of ten is still not above. -/
def leadingExponent (num den : Nat) : Int :=
  let low : Int := ((num.log2 : Int) - den.log2 - 1) * 30103 / 100000 - 1
  climb 4 low
where
  climb : Nat → Int → Int
    | 0, e => e
    | fuel + 1, e =>
      let (n, d) := scaleByPowerOfTen num den (-(e + 1))
      if d ≤ n then climb fuel (e + 1) else e

def roundQuotient (num den : Nat) : Nat :=
  let q := num / den
  let twice := 2 * (num % den)
  if den < twice || (den == twice && q % 2 == 1) then q + 1 else q

def dyadicRatio (m : Nat) (e : Int) : Nat × Nat :=
  if e < 0 then (m, 1 <<< (-e).toNat) else (m <<< e.toNat, 1)

def significantDigits (count num den : Nat) : DecimalDigits :=
  let lead := leadingExponent num den
  let exponent := lead - (count - 1 : Nat)
  let (n, d) := scaleByPowerOfTen num den (-exponent)
  let digits := roundQuotient n d
  if digits = Nat.pow 10 count then ⟨Nat.pow 10 (count - 1), exponent + 1⟩ else ⟨digits, exponent⟩

/-- Whether a point of a decimal grid, on which the positive number `m * 2 ^ e` of the format is
`num / den`, lies in the interval of reals that round to the number. The interval contains its ends
exactly when the significand is even. -/
def readsBack (f : Format) (m : Nat) (e : Int) (num den point : Nat) : Bool :=
  -- `num / den` is four times the value on the grid, one unit of the significand being four
  let below := if m = Nat.pow 2 (f.precision - 1) && f.minExponent < e then 1 else 2
  let scaled := 4 * m * point * den
  let lower := (4 * m - below) * num
  let upper := (4 * m + 2) * num
  point != 0 &&
    (if m % 2 = 0 then lower ≤ scaled && scaled ≤ upper else lower < scaled && scaled < upper)

/-- The positive number `m * 2 ^ e` of the format in `count` digits: the one neighbour on that grid
that reads back, and the nearer of the two where both do or none does. -/
def digitsAt (f : Format) (m : Nat) (e : Int) (count : Nat) : DecimalDigits :=
  let (num, den) := dyadicRatio m e
  let exponent := leadingExponent num den - (count - 1 : Nat)
  let (n, d) := scaleByPowerOfTen num den (-exponent)
  let low := n / d
  let lowIn := readsBack f m e n d low
  let highIn := readsBack f m e n d (low + 1)
  let digits := if lowIn == highIn then roundQuotient n d else if lowIn then low else low + 1
  if digits = Nat.pow 10 count then ⟨Nat.pow 10 (count - 1), exponent + 1⟩ else ⟨digits, exponent⟩

/-- The fewest digits that read back as the positive number `m * 2 ^ e` of the format. On each
grid of `1, 2, …` digits the value's two neighbours are tried. -/
def shortestDigits (f : Format) (m : Nat) (e : Int) : DecimalDigits :=
  let (num, den) := dyadicRatio m e
  search num den (leadingExponent num den) 40 1
where
  search (num den : Nat) (lead : Int) : Nat → Nat → DecimalDigits
    | 0, count => significantDigits count num den
    | fuel + 1, count =>
      let exponent := lead - (count - 1 : Nat)
      let (n, d) := scaleByPowerOfTen num den (-exponent)
      let low := n / d
      let lowIn := readsBack f m e n d low
      let highIn := readsBack f m e n d (low + 1)
      if lowIn && (!highIn || roundQuotient n d == low) then
        (⟨low, exponent⟩ : DecimalDigits).trim
      else if highIn then (⟨low + 1, exponent⟩ : DecimalDigits).trim
      else search num den lead fuel (count + 1)

end ProxGrad
