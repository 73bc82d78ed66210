import ProxGrad.Decimal.Numeral

/-!
# Dates and times

A date in digits, with or without a time of day and its distance from universal time.
`WrittenTime.read?` reads one; `WrittenTime.isValid` tells whether there is such a time.
-/

set_option autoImplicit false

namespace ProxGrad.Document

/-- The parts of a date, and of a time of day if it is given. -/
structure WrittenTime where
  year : Nat
  month : Nat
  day : Nat
  clock : Option (Nat × Nat × Nat)
  offset : Nat
deriving DecidableEq, Repr

namespace WrittenTime

def short? : List Char → Option (Nat × List Char)
  | a :: b :: cs =>
    if !a.isDigit then none
    else if b.isDigit then some (natOfDigits [a, b], cs)
    else some (natOfDigits [a], b :: cs)
  | [a] => if a.isDigit then some (natOfDigits [a], []) else none
  | [] => none

def pair? (mark : Char) : List Char → Option (Nat × List Char)
  | m :: a :: b :: cs =>
    if m == mark && a.isDigit && b.isDigit then some (natOfDigits [a, b], cs) else none
  | _ => none

def isSpace (c : Char) : Bool :=
  c == ' ' || c == '\t'

def separated? (cs : List Char) : Option (List Char) :=
  match cs with
  | 'T' :: cs | 't' :: cs => some cs
  | c :: _ => if isSpace c then some (cs.dropWhile isSpace) else none
  | [] => none

def offset? (cs : List Char) : Option Nat :=
  match cs.dropWhile isSpace with
  | [] => if cs.isEmpty then some 0 else none
  | ['Z'] => some 0
  | sign :: cs =>
    if sign == '-' || sign == '+' then do
      let (hours, cs) ← short? cs
      if cs.isEmpty then some (60 * hours)
      else
        let (minutes, cs) ← pair? ':' cs
        if cs.isEmpty then some (60 * hours + minutes) else none
    else none

def clock? (cs : List Char) : Option ((Nat × Nat × Nat) × Nat) := do
  let (hour, cs) ← short? cs
  let (minute, cs) ← pair? ':' cs
  let (second, cs) ← pair? ':' cs
  let cs := match cs with
    | '.' :: cs => cs.dropWhile Char.isDigit
    | cs => cs
  let offset ← offset? cs
  some ((hour, minute, second), offset)

def read? (cs : List Char) : Option WrittenTime := do
  let year := cs.take 4
  if year.length != 4 || !year.all Char.isDigit then none
  match cs.drop 4 with
  | '-' :: cs =>
    let (month, cs) ← short? cs
    match cs with
    | '-' :: cs =>
      let (day, cs) ← short? cs
      if cs.isEmpty then some ⟨natOfDigits year, month, day, none, 0⟩
      else
        let (clock, offset) ← clock? (← separated? cs)
        some ⟨natOfDigits year, month, day, some clock, offset⟩
    | _ => none
  | _ => none

def isLeap (year : Nat) : Bool :=
  year % 4 == 0 && (year % 100 != 0 || year % 400 == 0)

def daysIn (year : Nat) : Nat → Nat
  | 2 => if isLeap year then 29 else 28
  | 4 | 6 | 9 | 11 => 30
  | _ => 31

def isValid (t : WrittenTime) : Bool :=
  1 ≤ t.year && 1 ≤ t.month && t.month ≤ 12 && 1 ≤ t.day && t.day ≤ daysIn t.year t.month
    && t.offset < 24 * 60
    && (match t.clock with
        | none => true
        | some (hour, minute, second) => hour < 24 && minute < 60 && second < 60)

end WrittenTime

end ProxGrad.Document
