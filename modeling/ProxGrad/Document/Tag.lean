import ProxGrad.Document.Time

/-!
# Tags

A tag says what a node stands for. A plain scalar without one has the tag of the form it has:
`Tag.ofPlain` gives it, and text is what remains. No form belongs to two tags.
-/

set_option autoImplicit false

namespace ProxGrad.Document

inductive Tag where
  | null
  | bool
  | int
  | real
  | time
  | bytes
  | text
  | sequence
  | pairs
  | orderedMapping
  | mapping
  | set
  /-- The key whose value is merged into its mapping. -/
  | merge
  /-- The key whose value stands for its mapping. -/
  | default
  /-- A tag without a meaning. -/
  | unknown
deriving DecidableEq, Repr

namespace Tag

/-- What the default handle of tags stands for. -/
def stem : String := "tag:yaml.org,2002:"

def ofText (written : String) : Tag :=
  let named : List (String × Tag) :=
    [("null", .null), ("bool", .bool), ("int", .int), ("float", .real), ("timestamp", .time),
      ("binary", .bytes), ("str", .text), ("seq", .sequence), ("pairs", .pairs),
      ("omap", .orderedMapping), ("map", .mapping), ("set", .set), ("merge", .merge),
      ("value", .default)]
  match named.find? fun entry => stem ++ entry.1 == written with
  | some (_, tag) => tag
  | none => .unknown

/-! ## Forms of plain scalars -/

def parts (separator : Char) : List Char → List (List Char)
  | [] => [[]]
  | c :: cs =>
    if c == separator then [] :: parts separator cs
    else
      match parts separator cs with
      | part :: rest => (c :: part) :: rest
      | [] => [[c]]

def isDigits : List Char → Bool
  | [] => false
  | c :: cs => c.isDigit && cs.all fun c => c.isDigit || c == '_'

def isSixtieth : List Char → Bool
  | [b] => b.isDigit
  | [a, b] => '0' ≤ a && a ≤ '5' && b.isDigit
  | _ => false

def isOctalDigit (c : Char) : Bool :=
  '0' ≤ c && c ≤ '7'

def unsigned (cs : List Char) : List Char :=
  (takeSign cs).2

def isIntegerForm (cs : List Char) : Bool :=
  match unsigned cs with
  | '0' :: 'b' :: ds => !ds.isEmpty && ds.all fun c => c == '0' || c == '1' || c == '_'
  | '0' :: 'x' :: ds => !ds.isEmpty && ds.all fun c => c.isDigit || c == '_'
      || ('a' ≤ c && c ≤ 'f') || ('A' ≤ c && c ≤ 'F')
  | '0' :: ds => ds.all fun c => isOctalDigit c || c == '_'
  | cs =>
    match parts ':' cs with
    | whole :: sixtieths => isDigits whole && sixtieths.all isSixtieth
    | [] => false

def isExponentForm : List Char → Bool
  | [] => true
  | e :: sign :: ds =>
    (e == 'e' || e == 'E') && (sign == '-' || sign == '+') && !ds.isEmpty && ds.all Char.isDigit
  | _ => false

def isDigitOrUnderscore (c : Char) : Bool :=
  c.isDigit || c == '_'

/-- A number with a point, with an exponent if it is not to the base sixty; without digits before
the point it has no sign. Or an infinity, or no number. -/
def isRealForm (cs : List Char) : Bool :=
  let word := String.ofList (unsigned cs)
  let whole := (unsigned cs).takeWhile (· != '.')
  match (unsigned cs).dropWhile (· != '.') with
  | [] => false
  | _ :: fraction =>
    let tail := fraction.dropWhile isDigitOrUnderscore
    [".inf", ".Inf", ".INF"].contains word
      || [".nan", ".NaN", ".NAN"].contains (String.ofList cs)
      || (isDigits whole && isExponentForm tail)
      || (cs.head? == some '.' && isDigits (fraction.takeWhile isDigitOrUnderscore)
          && isExponentForm tail)
      || (match parts ':' whole with
          | first :: sixtieths =>
            isDigits first && !sixtieths.isEmpty && sixtieths.all isSixtieth && tail.isEmpty
          | [] => false)

/-- Whether text has the form of a time that needs no tag. A date alone has two digits for the
month and for the day. -/
def isTimeForm (cs : List Char) : Bool :=
  match WrittenTime.read? cs with
  | some t => t.clock.isSome || cs.length == 10
  | none => false

/-- The tag of a plain scalar without one. One break at its end does not count, unless it is all
there is. -/
def ofPlain (text : String) : Tag :=
  let cs := text.toList
  let cs := if cs.length > 1 && cs.getLast? == some '\n' then cs.dropLast else cs
  let word := String.ofList cs
  let bools := ["yes", "Yes", "YES", "no", "No", "NO", "true", "True", "TRUE", "false", "False",
    "FALSE", "on", "On", "ON", "off", "Off", "OFF"]
  if ["", "~", "null", "Null", "NULL"].contains word then .null
  else if bools.contains word then .bool
  else if isIntegerForm cs then .int
  else if isRealForm cs then .real
  else if isTimeForm cs then .time
  else if word == "<<" then .merge
  else if word == "=" then .default
  else if ["!", "&", "*"].contains word then .unknown
  else .text

end Tag

end ProxGrad.Document
