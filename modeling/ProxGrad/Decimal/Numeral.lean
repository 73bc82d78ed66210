import ProxGrad.Binary.Basic
import ProxGrad.Decimal.Digit

/-!
# Reading decimal numbers

A numeral is a sign, digits with an optional point, and an optional exponent. Reading gives the
exact decimal value; `Numeral.toBinary` rounds it once.
-/

set_option autoImplicit false

namespace ProxGrad

/-- The decimal number `± digits * 10 ^ exponent`. -/
structure Numeral where
  negative : Bool
  digits : Nat
  exponent : Int
deriving DecidableEq, Repr

def natOfDigits (cs : List Char) : Nat :=
  cs.foldl (fun n c => 10 * n + (c.toNat - '0'.toNat)) 0

def takeSign : List Char → Bool × List Char
  | '-' :: cs => (true, cs)
  | '+' :: cs => (false, cs)
  | cs => (false, cs)

namespace Numeral

/-- The exponent part of a numeral: nothing, or a mark, a sign and digits to the end. -/
def exponent? : List Char → Option Int
  | [] => some 0
  | c :: cs =>
    if c == 'e' || c == 'E' then
      let (negative, digits) := takeSign cs
      if digits.isEmpty || !digits.all Char.isDigit then none
      else
        let n : Int := natOfDigits digits
        some (if negative then -n else n)
    else none

/-- Reads a whole list of characters as a numeral with at least one digit before the exponent. -/
def read? (cs : List Char) : Option Numeral :=
  let (negative, cs) := takeSign cs
  let whole := cs.takeWhile Char.isDigit
  let (fraction, tail) := match cs.dropWhile Char.isDigit with
    | '.' :: rest => (rest.takeWhile Char.isDigit, rest.dropWhile Char.isDigit)
    | rest => ([], rest)
  if whole.isEmpty && fraction.isEmpty then none
  else (exponent? tail).map fun e =>
    { negative, digits := natOfDigits (whole ++ fraction), exponent := e - fraction.length }

def toBinary (f : Format) (n : Numeral) : Binary :=
  Binary.ofDecimal f n.negative n.digits n.exponent

end Numeral

def dropUnderscores? : Char → List Char → Option (List Char)
  | previous, [] => if previous == '_' then none else some []
  | previous, c :: cs =>
    if c == '_' then
      if previous.isDigit && (cs.head?.any Char.isDigit) then dropUnderscores? c cs else none
    else (dropUnderscores? c cs).map (c :: ·)

def isNumberBlank (c : Char) : Bool :=
  c == ' ' || (9 ≤ c.toNat && c.toNat ≤ 13)

def trimBlanks (cs : List Char) : List Char :=
  ((cs.dropWhile isNumberBlank).reverse.dropWhile isNumberBlank).reverse

/-- Text as a real of the format: a numeral, an infinity or a NaN, in any case of letters, between
blanks. -/
def readReal? (f : Format) (text : String) : Option Binary :=
  let cs := trimBlanks (text.toList.map plainDigit)
  let (negative, word) := takeSign (cs.map Char.toLower)
  let word := String.ofList word
  if word == "inf" || word == "infinity" then some (.infinite negative)
  else if word == "nan" then some .nan
  else ((dropUnderscores? ' ' cs).bind Numeral.read?).map (Numeral.toBinary f)

def readInteger? (text : String) : Option Int :=
  let (negative, cs) := takeSign (trimBlanks (text.toList.map plainDigit))
  (dropUnderscores? ' ' cs).bind fun digits =>
    if digits.isEmpty || !digits.all Char.isDigit then none
    else
      let n : Int := natOfDigits digits
      some (if negative then -n else n)

end ProxGrad
