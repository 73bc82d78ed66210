import ProxGrad.Binary.Basic

/-!
# Element types

The type of the entries of an array, the smallest type that holds the values of two of them, and
the type of an entrywise result. A literal takes part in promotion only through its kind, so that
an array of single precision stays one when it is multiplied by a literal.
-/

set_option autoImplicit false

namespace ProxGrad

/-- The widths of floating entries. -/
inductive Precision where
  | half
  | single
  | double
  | extended
deriving DecidableEq, Repr

namespace Precision

def format : Precision → Format
  | .half => .half
  | .single => .single
  | .double => .double
  | .extended => .extended

/-- The number of bits that an entry takes; not all of them count in an extended one. -/
def bits : Precision → Nat
  | .half => 16
  | .single => 32
  | .double => 64
  | .extended => 128

def join : Precision → Precision → Precision
  | .extended, _ | _, .extended => .extended
  | .double, _ | _, .double => .double
  | .single, _ | _, .single => .single
  | .half, .half => .half

def reading : Precision → Precision
  | .extended => .extended
  | _ => .double

def accumulator : Precision → Precision
  | .half => .single
  | p => p

end Precision

/-- The type of the entries of an array. Points and spans of time, strings of bytes, and records are
no entries here. -/
inductive DType where
  | bool
  | int (signed : Bool) (bits : Nat)
  | real (precision : Precision)
  /-- Pairs of reals, not of half precision. -/
  | complex (precision : Precision)
  /-- Text of at most so many characters. -/
  | text (width : Nat)
  /-- Entries that are values of their own. -/
  | object
deriving DecidableEq, Repr

namespace DType

def int64 : DType := .int true 64

def float64 : DType := .real .double

def complex128 : DType := .complex .double

def name : DType → String
  | .bool => "bool"
  | .int signed bits => (if signed then "int" else "uint") ++ toString bits
  | .real p => "float" ++ toString p.bits
  | .complex p => "complex" ++ toString (2 * p.bits)
  | .text width => "<U" ++ toString width
  | .object => "object"

/-- The element types with a name, each width that exists. -/
def named : List DType :=
  [.bool, .int true 8, .int true 16, .int true 32, .int true 64, .int false 8, .int false 16,
    .int false 32, .int false 64, .real .half, .real .single, .real .double, .real .extended,
    .complex .single, .complex .double, .complex .extended, .object]

def ofName? (text : String) : Option DType :=
  named.find? fun d => d.name == text

/-- Further texts that name element types: common names, one-letter codes, and kinds with a number
of bytes. -/
def aliases : List (String × DType) :=
  [("bool_", .bool), ("?", .bool), ("b1", .bool),
    ("byte", .int true 8), ("b", .int true 8), ("i1", .int true 8),
    ("short", .int true 16), ("h", .int true 16), ("i2", .int true 16),
    ("intc", .int true 32), ("i", .int true 32), ("i4", .int true 32),
    ("int", .int true 64), ("int_", .int true 64), ("intp", .int true 64), ("long", .int true 64),
    ("longlong", .int true 64), ("l", .int true 64), ("q", .int true 64), ("p", .int true 64),
    ("i8", .int true 64),
    ("ubyte", .int false 8), ("B", .int false 8), ("u1", .int false 8),
    ("ushort", .int false 16), ("H", .int false 16), ("u2", .int false 16),
    ("uintc", .int false 32), ("I", .int false 32), ("u4", .int false 32),
    ("uint", .int false 64), ("uintp", .int false 64), ("ulong", .int false 64),
    ("ulonglong", .int false 64), ("L", .int false 64), ("Q", .int false 64), ("P", .int false 64),
    ("u8", .int false 64),
    ("half", .real .half), ("e", .real .half), ("f2", .real .half),
    ("single", .real .single), ("f", .real .single), ("f4", .real .single),
    ("float", .real .double), ("double", .real .double), ("d", .real .double),
    ("f8", .real .double),
    ("longdouble", .real .extended), ("g", .real .extended), ("f16", .real .extended),
    ("clongdouble", .complex .extended), ("G", .complex .extended), ("c32", .complex .extended),
    ("csingle", .complex .single), ("F", .complex .single), ("c8", .complex .single),
    ("complex", .complex .double), ("cdouble", .complex .double), ("D", .complex .double),
    ("c16", .complex .double), ("object_", .object), ("O", .object)]

def bareName (text : String) : String :=
  match text.toList with
  | '<' :: rest | '=' :: rest | '|' :: rest | '>' :: rest => String.ofList rest
  | _ => text

/-- The element type that a text names. A mark of the order of bytes in front does not change it. -/
def ofText? (text : String) : Option DType :=
  match ofName? text with
  | some d => some d
  | none => (aliases.find? fun entry => entry.1 == bareName text).map (·.2)

def size : DType → Nat
  | .bool => 1
  | .int _ bits => bits / 8
  | .real p => p.bits / 8
  | .complex p => 2 * (p.bits / 8)
  | .text width => 4 * width
  | .object => 8

def isInexact : DType → Bool
  | .real _ | .complex _ => true
  | _ => false

def isComplex : DType → Bool
  | .complex _ => true
  | _ => false

/-- The floating width that holds every integer of these bits as well as that width can. -/
def realOfBits (bits : Nat) : Precision :=
  if bits ≤ 8 then .half else if bits ≤ 16 then .single else .double

def textWidth : DType → Nat
  | .bool => 5
  | .int true bits => if bits ≤ 8 then 4 else if bits ≤ 16 then 6 else if bits ≤ 32 then 11 else 21
  | .int false bits => if bits ≤ 8 then 3 else if bits ≤ 16 then 5 else if bits ≤ 32 then 10 else 20
  | .real _ => 32
  | .complex _ => 64
  | .text width => width
  | .object => 0

/-- The smallest type that holds the values of both; with text, the text that writes them. -/
def promote : DType → DType → DType
  | .object, _ | _, .object => .object
  | .text m, d | d, .text m => .text (max m d.textWidth)
  | .bool, d | d, .bool => d
  | .int true m, .int true n => .int true (max m n)
  | .int false m, .int false n => .int false (max m n)
  | .int true m, .int false n | .int false n, .int true m =>
    if n < m then .int true m else if n < 64 then .int true (2 * n) else float64
  | .int _ n, .real p | .real p, .int _ n => .real ((realOfBits n).join p)
  | .int _ n, .complex p | .complex p, .int _ n => .complex ((realOfBits n).join p)
  | .real p, .real q => .real (p.join q)
  | .real p, .complex q | .complex q, .real p => .complex (p.join q)
  | .complex p, .complex q => .complex (p.join q)

/-- The kinds of literals that adapt to an array. -/
inductive LiteralKind where
  | int
  | real
  | complex
deriving DecidableEq, Repr

def adapt : LiteralKind → DType → DType
  | .int, .bool => int64
  | .int, d => d
  | .real, .bool | .real, .int .. => float64
  | .real, d => d
  | .complex, .bool | .complex, .int .. => complex128
  | .complex, .real p => .complex (p.join .single)
  | .complex, d => d

def realPart : DType → DType
  | .complex p => .real p
  | d => d

def holds (signed : Bool) (bits : Nat) (i : Int) : Bool :=
  let range := Nat.pow 2 (if signed then bits - 1 else bits)
  (if signed then -(range : Int) else 0) ≤ i && i < range

def wrap (signed : Bool) (bits : Nat) (i : Int) : Int :=
  if signed then Int.bmod i (Nat.pow 2 bits) else i % Nat.pow 2 bits

end DType

end ProxGrad
