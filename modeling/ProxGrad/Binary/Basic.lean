/-!
# Binary floating numbers

A number of a binary format is an exact dyadic rational, an infinity or a NaN. This module holds
the formats, the numbers, and the one place where a number is rounded: `Binary.round`, to the
nearest number of the format with ties to the even significand. All arithmetic is on `Nat` and
`Int`, so closed computations are evaluated by the kernel.
-/

set_option autoImplicit false

namespace ProxGrad

/-- A binary floating format: the number of significant bits (the leading one included) and the
exponent of the least power of two that is out of range. -/
structure Format where
  precision : Nat
  maxExponent : Nat
deriving DecidableEq, Repr

namespace Format

/-- Eleven significant bits, below `2 ^ 16`. -/
def half : Format := ⟨11, 16⟩

/-- Twenty-four significant bits, below `2 ^ 128`. -/
def single : Format := ⟨24, 128⟩

/-- Fifty-three significant bits, below `2 ^ 1024`. -/
def double : Format := ⟨53, 1024⟩

/-- Sixty-four significant bits, below `2 ^ 16384`. -/
def extended : Format := ⟨64, 16384⟩

/-- The exponent of the least positive number, which is also the spacing of all numbers near
zero. -/
def minExponent (f : Format) : Int :=
  3 - f.maxExponent - f.precision

end Format

/-- A number of some binary format. A finite number is `± significand * 2 ^ exponent`. -/
inductive Binary where
  | nan
  | infinite (negative : Bool)
  | finite (negative : Bool) (significand : Nat) (exponent : Int)
deriving DecidableEq, Repr, Inhabited

namespace Binary

/-- The integer nearest to `m / 2 ^ k`, a tie going to the even one. With `inexact` the quantity
rounded is `m` plus something positive below one, which breaks a tie upwards. -/
def roundShift (m k : Nat) (inexact : Bool) : Nat :=
  let quotient := m >>> k
  let twice := 2 * (m - quotient <<< k)
  let unit := 1 <<< k
  if unit < twice || (unit == twice && (inexact || quotient % 2 == 1)) then quotient + 1
  else quotient

/-- The number of the format nearest to `± m * 2 ^ e`, ties to the even significand. With
`inexact` the magnitude rounded lies strictly between `m` and `m + 1` times `2 ^ e`; the caller
then provides more significant bits than the format has. A magnitude that rounds to
`2 ^ maxExponent` or more is an infinity. -/
def round (f : Format) (negative : Bool) (m : Nat) (e : Int) (inexact : Bool) : Binary :=
  if m = 0 then .finite negative 0 f.minExponent
  else
    let target := max (e + m.log2 + 1 - f.precision) f.minExponent
    let q := if target ≤ e then m <<< (e - target).toNat
      else roundShift m (target - e).toNat inexact
    let (q, target) := if q = Nat.pow 2 f.precision then (q / 2, target + 1) else (q, target)
    if (f.maxExponent : Int) < target + f.precision then .infinite negative
    else .finite negative q target

def zero : Binary := .finite false 0 0

def ofInt (f : Format) (i : Int) : Binary :=
  round f (i < 0) i.natAbs 0 false

def ofRatio (f : Format) (negative : Bool) (num den : Nat) : Binary :=
  let shift := f.precision + 3 + den.log2 - num.log2
  let scaled := num <<< shift
  round f negative (scaled / den) (-(shift : Int)) (scaled % den != 0)

/-- The nearest number of the format to `± digits * 10 ^ exponent`. Exponents beyond the format's
range are settled without the power. -/
def ofDecimal (f : Format) (negative : Bool) (digits : Nat) (exponent : Int) : Binary :=
  let reach : Int := f.maxExponent / 3 + f.precision
  if digits = 0 then round f negative 0 0 false
  else if exponent > reach then .infinite negative
  else if exponent ≥ 0 then round f negative (digits * Nat.pow 10 exponent.toNat) 0 false
  else if exponent + (digits.log2 + 1) * 302 / 1000 < -reach then round f negative 0 0 false
  else ofRatio f negative digits (Nat.pow 10 (-exponent).toNat)

def convert (f : Format) : Binary → Binary
  | .finite s m e => round f s m e false
  | x => x

def isNaN : Binary → Bool
  | .nan => true
  | _ => false

def isFinite : Binary → Bool
  | .finite .. => true
  | _ => false

def isZero : Binary → Bool
  | .finite _ m _ => m == 0
  | _ => false

def isNegative : Binary → Bool
  | .nan => false
  | .infinite s => s
  | .finite s _ _ => s

def neg : Binary → Binary
  | .nan => .nan
  | .infinite s => .infinite !s
  | .finite s m e => .finite (!s) m e

def abs : Binary → Binary
  | .nan => .nan
  | .infinite _ => .infinite false
  | .finite _ m e => .finite false m e

/-- The signed integers `a` and `b` with `x = a * 2 ^ e` and `y = b * 2 ^ e` for a common `e`. -/
def align (s₁ : Bool) (m₁ : Nat) (e₁ : Int) (s₂ : Bool) (m₂ : Nat) (e₂ : Int) : Int × Int × Int :=
  let e := min e₁ e₂
  let a : Int := m₁ <<< (e₁ - e).toNat
  let b : Int := m₂ <<< (e₂ - e).toNat
  (if s₁ then -a else a, if s₂ then -b else b, e)

/-- The order of the two values; zeros of both signs are equal, and a NaN has no order. -/
def compare? : Binary → Binary → Option Ordering
  | .nan, _ | _, .nan => none
  | .infinite s, .infinite t => some (compare t.toNat s.toNat)
  | .infinite s, .finite .. => some (if s then .lt else .gt)
  | .finite .., .infinite t => some (if t then .gt else .lt)
  | .finite s₁ m₁ e₁, .finite s₂ m₂ e₂ =>
    let (a, b, _) := align s₁ m₁ e₁ s₂ m₂ e₂
    some (compare a b)

def lt (x y : Binary) : Bool := compare? x y == some .lt

def le (x y : Binary) : Bool := compare? x y == some .lt || compare? x y == some .eq

def eq (x y : Binary) : Bool := compare? x y == some .eq

def truncate? : Binary → Option Int
  | .finite s m e =>
    let a : Int := if e < 0 then m >>> (-e).toNat else m <<< e.toNat
    some (if s then -a else a)
  | _ => none

end Binary

end ProxGrad
