import ProxGrad.Binary.Basic

/-!
# Correctly rounded arithmetic

Sum, product, quotient, square root and hypotenuse of binary numbers: each is the exact result
rounded once by `Binary.round`. The special cases are those of the standard for binary floating
arithmetic: an invalid operation gives a NaN, a nonzero number divided by zero an infinity.
-/

set_option autoImplicit false

namespace ProxGrad

/-- Adds to the partial root `r` the bits `2 ^ (k - 1), …, 1` that keep its square at most `n`. -/
def rootBits (n : Nat) : Nat → Nat → Nat
  | 0, r => r
  | k + 1, r =>
    let next := r + 1 <<< k
    rootBits n k (if next * next ≤ n then next else r)

def integerRoot (n : Nat) : Nat :=
  rootBits n (n.log2 / 2 + 1) 0

namespace Binary

def add (f : Format) : Binary → Binary → Binary
  | .nan, _ | _, .nan => .nan
  | .infinite s, .infinite t => if s == t then .infinite s else .nan
  | .infinite s, .finite .. => .infinite s
  | .finite .., .infinite t => .infinite t
  | .finite s₁ m₁ e₁, .finite s₂ m₂ e₂ =>
    let (a, b, e) := align s₁ m₁ e₁ s₂ m₂ e₂
    let sum := a + b
    if sum = 0 then round f (s₁ && s₂) 0 0 false
    else round f (sum < 0) sum.natAbs e false

def sub (f : Format) (x y : Binary) : Binary :=
  add f x y.neg

def mul (f : Format) : Binary → Binary → Binary
  | .nan, _ | _, .nan => .nan
  | .infinite s, .infinite t => .infinite (s != t)
  | .infinite s, .finite t m _ => if m = 0 then .nan else .infinite (s != t)
  | .finite s m _, .infinite t => if m = 0 then .nan else .infinite (s != t)
  | .finite s₁ m₁ e₁, .finite s₂ m₂ e₂ => round f (s₁ != s₂) (m₁ * m₂) (e₁ + e₂) false

def mulAdd (f : Format) (x y z : Binary) : Binary :=
  match x, y with
  | .finite s₁ m₁ e₁, .finite s₂ m₂ e₂ => add f (.finite (s₁ != s₂) (m₁ * m₂) (e₁ + e₂)) z
  | x, y => add f (mul f x y) z

def div (f : Format) : Binary → Binary → Binary
  | .nan, _ | _, .nan => .nan
  | .infinite _, .infinite _ => .nan
  | .infinite s, .finite t _ _ => .infinite (s != t)
  | .finite s _ _, .infinite t => round f (s != t) 0 0 false
  | .finite s₁ m₁ e₁, .finite s₂ m₂ e₂ =>
    if m₂ = 0 then if m₁ = 0 then .nan else .infinite (s₁ != s₂)
    else
      let shift := f.precision + 3 + m₂.log2 - m₁.log2
      let scaled := m₁ <<< shift
      round f (s₁ != s₂) (scaled / m₂) (e₁ - e₂ - shift) (scaled % m₂ != 0)

/-- The square root of `m * 2 ^ e`, for `m` not zero. The significand is widened to twice the
precision, and to an even exponent, before its integer root is taken. -/
def rootOfDyadic (f : Format) (m : Nat) (e : Int) : Binary :=
  let room := 2 * (f.precision + 2) - m.log2
  let shift := if (e - room) % 2 = 0 then room else room + 1
  let widened := m <<< shift
  let root := integerRoot widened
  round f false root ((e - shift) / 2) (root * root != widened)

def sqrt (f : Format) : Binary → Binary
  | .nan => .nan
  | .infinite s => if s then .nan else .infinite false
  | .finite s m e =>
    if m = 0 then round f s 0 0 false
    else if s then .nan
    else rootOfDyadic f m e

def hypot (f : Format) : Binary → Binary → Binary
  | .infinite _, _ | _, .infinite _ => .infinite false
  | .nan, _ | _, .nan => .nan
  | .finite _ m₁ e₁, .finite _ m₂ e₂ =>
    let (a, b, e) := align false (m₁ * m₁) (2 * e₁) false (m₂ * m₂) (2 * e₂)
    let sum := (a + b).toNat
    if sum = 0 then round f false 0 0 false else rootOfDyadic f sum e

/-- The length of the hypotenuse as the longer side times `√(1 + r²)`, where `r` is the ratio of the
sides; each step is rounded. -/
def scaledHypot (f : Format) (x y : Binary) : Binary :=
  match x, y with
  | .infinite _, _ | _, .infinite _ => .infinite false
  | x, y =>
    let (long, short) := if le y.abs x.abs then (x.abs, y.abs) else (y.abs, x.abs)
    if long.isZero then long
    else
      let ratio := div f short long
      mul f (sqrt f (mulAdd f ratio ratio (ofInt f 1))) long

end Binary

end ProxGrad
