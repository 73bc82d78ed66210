import ProxGrad.Value.Basic
import ProxGrad.Numeric.Columns
import ProxGrad.Text.Brackets

/-!
# Values in writing

The text of a value in messages and echoes: the fewest digits that read back, quotes around text,
the element type of a number that has one, and the entries of an array in columns between brackets.
-/

set_option autoImplicit false

namespace ProxGrad

def realText (p : Precision) (x : Binary) : String :=
  x.written (.shortest p.positionalBelow) p.format

def complexText (p : Precision) (re im : Binary) : String :=
  let part (x : Binary) : String := x.written (.part p.positionalBelow) p.format
  if re.isZero && !re.isNegative then part im ++ "j"
  else part re ++ (if im.isNegative then "" else "+") ++ part im ++ "j"

/-- The text of a complex number that stands alone: in parentheses where it has two parts. -/
def complexAlone (p : Precision) (re im : Binary) : String :=
  if re.isZero && !re.isNegative then complexText p re im
  else "(" ++ complexText p re im ++ ")"

/-- The text of a decimal number: its digits around a point while the exponent is not positive and
at most five zeros follow the point, else before an exponent. -/
def decimalText (n : Numeral) : String :=
  let digits := toString n.digits
  let left := n.exponent + digits.length
  let sign := if n.negative then "-" else ""
  let point := if n.exponent ≤ 0 && left > -6 then left else 1
  let body :=
    if point ≤ 0 then "0." ++ repeated '0' (-point).toNat ++ digits
    else if point.toNat ≥ digits.length then digits ++ repeated '0' (point.toNat - digits.length)
    else (digits.take point.toNat).toString ++ "." ++ (digits.drop point.toNat).toString
  let exponent := left - point
  sign ++ body ++ (if exponent = 0 then ""
    else "E" ++ (if exponent < 0 then "-" else "+") ++ toString exponent.natAbs)

def DecimalValue.text : DecimalValue → String
  | .infinite s => if s then "-Infinity" else "Infinity"
  | .nan s signaling payload =>
    (if s then "-" else "") ++ (if signaling then "sNaN" else "NaN")
      ++ (if payload = 0 then "" else toString payload)
  | .finite n => decimalText n

/-! ## Arrays -/

/-- The number of characters of a line. -/
def lineWidth : Nat := 75

/-- The greatest number of entries that are all shown. -/
def shownEntries : Nat := 1000

def DType.isImplied : DType → Bool
  | .bool | .int true 64 | .real .double | .complex .double => true
  | _ => false

/-- The entries of an array between brackets. The texts of entries that are values of their own are
given, in order. -/
def entriesText (d : DType) (shape : List Nat) (entries : List Scalar) (own : List String) :
    String :=
  let abridged := shownEntries < entries.length
  let words := match d with
    | .object => edges abridged shape own
    | d => Scalar.columns d shape.isEmpty (edges abridged shape entries)
  if entries.isEmpty then "[]"
  else bracketed (lineWidth - 1) 7 (shape.map (Side.ofLength abridged)) words

/-- What the entries of an array do not show: its shape, where not all of them are there, and their
type. -/
def arrayRemarks (d : DType) (shape : List Nat) (count : Nat) : List String :=
  let dtype := match d with
    | .text _ => quoted d.name
    | d => d.name
  (if (count = 0 && shape != [0]) || shownEntries < count then
      ["shape=" ++ writtenShape (shape.map toString)] else [])
    ++ (if d.isImplied && count != 0 then [] else ["dtype=" ++ dtype])

def lastLineLength (s : String) : Nat :=
  ((s.splitOn "\n").getLast?.map String.length).getD 0

/-- An array in writing. What the entries do not show stands behind them, on a line of its own where
it would end beyond the width. -/
def arrayText (d : DType) (shape : List Nat) (entries : List Scalar) (own : List String) : String :=
  let body := "array(" ++ entriesText d shape entries own
  match arrayRemarks d shape entries.length with
  | [] => body ++ ")"
  | remarks =>
    let body := body ++ ","
    let remarks := ", ".intercalate remarks ++ ")"
    if lineWidth < lastLineLength body + remarks.length + 1 then body ++ "\n" ++ blanks 6 ++ remarks
    else body ++ " " ++ remarks

/-! ## Entries and values -/

namespace Scalar

def numberText (d : DType) (x : Scalar) : String :=
  match d, x with
  | _, .bool b => truthText b
  | _, .int i => toString i
  | .real p, .real r => realText p r
  | _, .real r => realText .double r
  | .complex p, .complex re im => complexAlone p re im
  | _, .complex re im => complexAlone .double re im
  | _, .text s => s
  | _, _ => ""

mutual

def shown : Scalar → String
  | .absent => "None"
  | .bool b => truthText b
  | .int i => toString i
  | .real x => realText .double x
  | .complex re im => complexAlone .double re im
  | .text s => quoted s
  | .brokenText codes => quotedNumbers codes
  | .ratio num den => "Fraction(" ++ toString num ++ ", " ++ toString den ++ ")"
  | .decimal d => "Decimal('" ++ d.text ++ "')"
  | .list items => "[" ++ ", ".intercalate (shownAll items) ++ "]"
  | .tuple items => writtenShape (shownAll items)
  | .dict fields => "\x7b" ++ ", ".intercalate (shownFields fields) ++ "\x7d"
  | .number d x =>
    "np." ++ (match d, x with
      | .bool, .bool b => truthText b ++ "_"
      | .real .extended, .real r => d.numberName ++ "('" ++ realText .extended r ++ "')"
      | .complex .extended, .complex re im =>
        d.numberName ++ "('" ++ complexAlone .extended re im ++ "')"
      | .complex p, .complex re im => d.numberName ++ "(" ++ complexText p re im ++ ")"
      | _, .text s => d.numberName ++ "(" ++ quoted s ++ ")"
      | d, x => d.numberName ++ "(" ++ x.numberText d ++ ")")
  | .table d shape entries => arrayText d shape entries (shownEach entries)
  | .foreign _ form => form

def shownAll : List Scalar → List String
  | [] => []
  | x :: xs => shown x :: shownAll xs

def shownEach : List Scalar → List String
  | [] => []
  | .list items :: xs => ("list([" ++ ", ".intercalate (shownAll items) ++ "])") :: shownEach xs
  | x :: xs => shown x :: shownEach xs

def shownFields : List (String × Scalar) → List String
  | [] => []
  | (name, x) :: fields => (quoted name ++ ": " ++ shown x) :: shownFields fields

end

/-- The least number with more digits than an integer in writing may have. -/
def digitBound : Nat := Nat.pow 10 4300

mutual

/-- Whether no integer that is shown has too many digits for writing. -/
def isWritable : Scalar → Bool
  | .int i => i.natAbs < digitBound
  | .ratio num den => num.natAbs < digitBound && den < digitBound
  | .list items | .tuple items => (eachWritable items).all id
  | .dict fields => fieldsWritable fields
  | .table .object shape entries =>
    (edges (shownEntries < entries.length) shape (eachWritable entries)).all id
  | _ => true

def eachWritable : List Scalar → List Bool
  | [] => []
  | x :: xs => isWritable x :: eachWritable xs

def fieldsWritable : List (String × Scalar) → Bool
  | [] => true
  | (_, x) :: fields => isWritable x && fieldsWritable fields

end

end Scalar

namespace Value

def written (v : Value) : String :=
  v.toEntry.shown

/-- The text of a value in a message. A value that shows an integer of too many digits has none. -/
def written? (v : Value) : Except Fault String :=
  if v.toEntry.isWritable then .ok v.written else .error .digitLimit

/-- The plain text of a value, as it stands inside a sentence: text without quotes and a number
without its kind. -/
def plain : Value → String
  | .scalar d x => x.numberText d
  | .text s => s
  | .fraction num den => toString num ++ (if den = 1 then "" else "/" ++ toString den)
  | .decimal d => d.text
  | v => v.written

def plain? (v : Value) : Except Fault String :=
  if v.toEntry.isWritable then .ok v.plain else .error .digitLimit

/-- The name of a value's type and its text. -/
def echo (v : Value) : Except Fault String :=
  v.written?.map fun text => v.typeName ++ ":" ++ text

end Value

end ProxGrad
