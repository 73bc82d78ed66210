import ProxGrad.Value.Text

/-!
# The array form of a value

A value becomes an array of a requested element type, or of the smallest type that holds all its
entries. Sequences give the sides; what is no sequence is an entry. `Value.finiteArray?` is the
check at the boundary of the library: a floating array with finite entries.
-/

set_option autoImplicit false

namespace ProxGrad

/-! ## Shapes of nested sequences -/

/-- What the parts of a value, looked at in order, have shown of its shape. -/
structure Outline where
  sides : List Nat
  most : Nat
  /-- Whether the first entry was met, or an array or an empty sequence in its place. From then on
  sides are compared, not found. -/
  settled : Bool
  ragged : Bool
deriving DecidableEq, Repr

namespace Outline

/-- The number of sides that an array may have. -/
def limit : Nat := 64

def empty : Outline :=
  ⟨[], limit, false, false⟩

def agreement : List Nat → List Nat → Nat
  | n :: s, k :: t => if n = k then agreement s t + 1 else 0
  | _, _ => 0

/-- A part at a depth with these sides of its own, and whether it agrees with the parts before it. A
sequence has further parts inside; an entry and an array do not, so that the whole has no sides
beyond theirs. -/
def meet (depth : Nat) (own : List Nat) (sequence : Bool) (o : Outline) : Outline × Bool :=
  let reach := depth + own.length
  let exceeds := o.most < reach
  let kept := if exceeds then own.take (o.most - depth) else own
  let shrinks := !exceeds && !sequence && o.most ≠ reach
  let most := if shrinks then reach else o.most
  let agrees := !exceeds && !(shrinks && o.settled)
  if !o.settled then
    ({ sides := o.sides.take depth ++ kept, most, settled := !sequence
       ragged := o.ragged || !agrees }, agrees)
  else
    let common := agreement kept (o.sides.drop depth)
    if common = kept.length then ({ o with most, ragged := o.ragged || !agrees }, agrees)
    else
      ({ o with
         most := if sequence then depth else most - (kept.length - common)
         ragged := true }, false)

/-- The outline after a sequence of so many parts at a depth. One that the array has no side for is
an entry that does not fit, and what is inside one that does not agree is not looked at. -/
def sequence (depth count : Nat) (inside : Outline → Outline) (o : Outline) : Outline :=
  if depth = o.most then { (o.meet depth [] false).1 with ragged := true }
  else
    match o.meet depth [count] true with
    | (met, false) => met
    | (met, true) =>
      if count = 0 then { met with settled := true, most := depth + 1 } else inside met

def defect (o : Outline) : ConversionDefect :=
  if o.most = limit then .tooDeep limit else .ragged (o.sides.take o.most)

end Outline

namespace Value

mutual

def outlineAt (depth : Nat) (o : Outline) : Value → Outline
  | .array a => (o.meet depth a.shape false).1
  | .list items => o.sequence depth items.length fun o => outlineItems (depth + 1) o items
  | .tuple items => o.sequence depth items.length fun o => outlineItems (depth + 1) o items
  | _ => (o.meet depth [] false).1

def outlineItems (depth : Nat) (o : Outline) : List Value → Outline
  | [] => o
  | v :: vs => outlineItems depth (outlineAt depth o v) vs

end

def outline (v : Value) : Outline :=
  outlineAt 0 .empty v

mutual

def leaves : Value → List Value
  | .list items | .tuple items => leavesOfItems items
  | .array a => a.data.entries.map (Value.scalar a.dtype)
  | v => [v]

def leavesOfItems : List Value → List Value
  | [] => []
  | v :: vs => leaves v ++ leavesOfItems vs

end

/-! ## Element types -/

mutual

/-- The element types found in a value; an array shows its own even when it has no entries. -/
def entryTypes : Value → List DType
  | .list items => entryTypesOfList items
  | .tuple items => entryTypesOfList items
  | v => [v.toEntry.ownType]

def entryTypesOfList : List Value → List DType
  | [] => []
  | v :: vs => entryTypes v ++ entryTypesOfList vs

end

def joinTypes : List DType → DType
  | [] => .float64
  | d :: ds => ds.foldl DType.promote d

/-! ## Entries -/

/-- A single entry in the requested element type. A number with an element type and the entry of an
array without sides are cut to it, all other values checked. -/
def entryAs (d : DType) (v : Value) : Except Fault Scalar :=
  match d, v with
  | .object, v => .ok v.toEntry
  | d, .scalar source x | d, .array ⟨source, ⟨[], [x], _⟩⟩ => Scalar.convert d source x
  | d, v => Scalar.ofValue d v.toEntry

/-- The entries of an array in another element type, repeated to the given sides. -/
def spread (d : DType) (sides : List Nat) (a : NDArray) : Except Fault (List Scalar) := do
  let b ← a.convertTo d
  match (Tensor.ofShape? (NDArray.dropOnes sides.length a.shape) b.data.entries).bind fun t =>
      t.broadcastTo? sides with
  | some ⟨xs, _⟩ => return xs
  | none => throw (.conversion (.broadcast a.shape sides))

mutual

def entriesUnder (d : DType) : List Nat → Value → Except Fault (List Scalar)
  | [], .array a =>
    if d = .object && a.shape ≠ [] then .ok [(Value.array a).toEntry] else spread d [] a
  | sides, .array a => spread d sides a
  | _ :: sides, .list items => entriesOfItems d sides items
  | _ :: sides, .tuple items => entriesOfItems d sides items
  | _, v => do return [← entryAs d v]

def entriesOfItems (d : DType) (sides : List Nat) : List Value → Except Fault (List Scalar)
  | [] => .ok []
  | v :: vs => do
    let first ← entriesUnder d sides v
    return first ++ (← entriesOfItems d sides vs)

end

/-- The array form of a value, in the requested element type if there is one. Parts that do not
agree are entries only where entries may be any value. -/
def toArray (requested : Option DType) (v : Value) : Except Fault NDArray := do
  match v with
  | .array a =>
    match requested with
    | some d => if a.dtype = d then return a else a.convertTo d
    | none => return a
  | v =>
    let outline := v.outline
    if outline.ragged && requested ≠ some .object then
      throw (.conversion outline.defect)
    let d := requested.getD (joinTypes v.entryTypes)
    let sides := outline.sides.take outline.most
    match Tensor.ofShape? sides (← entriesUnder d sides v) with
    | some data => return ⟨d, data⟩
    | none => throw .shapes

/-! ## Requested element types -/

/-- An element type as a caller asks for it. -/
structure TypeRequest where
  dtype : DType
  /-- How the type is told: its name, or its kind and size in the other order of bytes. -/
  name : String
  /-- Whether an array of the type is one already, and not one in the other order of bytes. -/
  native : Bool

def sizedKind (d : DType) : Option String :=
  match d with
  | .int signed bits => if bits = 8 then none else some ((if signed then "i" else "u") ++ bytes)
  | .real _ => some ("f" ++ bytes)
  | .complex _ => some ("c" ++ bytes)
  | .text width => some ("U" ++ toString width)
  | .bool | .object => none
where
  bytes : String := toString d.size

def TypeRequest.of (d : DType) (swapped : Bool) : TypeRequest :=
  match swapped, sizedKind d with
  | true, some kind => ⟨d, ">" ++ kind, false⟩
  | _, _ => ⟨d, d.name, true⟩

mutual

def textWidth : Value → Nat
  | .list items | .tuple items => textWidthOfItems items
  | .array ⟨.object, data⟩ =>
    (data.entries.map fun x => (ofEntry x).plain.length).foldl max 0
  | .array a => a.dtype.textWidth
  | .scalar d _ => d.textWidth
  | v => v.plain.length

def textWidthOfItems : List Value → Nat
  | [] => 0
  | v :: vs => max (textWidth v) (textWidthOfItems vs)

end

/-- The element type of text that a name asks for, of a stated width or of the one that the value
needs. -/
def textType? (bare : String) (v : Value) : Option DType :=
  match bare.toList with
  | ['U'] | ['s', 't', 'r'] | ['s', 't', 'r', '_'] => some (.text (max 1 (textWidth v)))
  | 'U' :: digits =>
    if digits.all Char.isDigit then
      match natOfDigits digits with
      | 0 => some (.text (max 1 (textWidth v)))
      | width => some (.text width)
    else none
  | _ => none

def requestOf? (written : String) (v : Value) : Option TypeRequest :=
  let swapped := written.startsWith ">"
  match DType.ofText? written, textType? (DType.bareName written) v with
  | some d, _ | none, some d => some (.of d swapped)
  | none, none => none

/-! ## The check at the boundary -/

/-- A value accepted as a finite floating array called `name`: nothing if it is one already, or the
array that it was converted to. -/
def finiteArrayAs? (name : String) (requested : Option TypeRequest) (v : Value) :
    Except Fault (Option NDArray) := do
  let check (a : NDArray) : Except Fault Unit := do
    if !a.dtype.isInexact then
      throw (.invalidArray name (.notFloating ((requested.map (·.name)).getD a.dtype.name)))
    if !a.allFinite then throw (.invalidArray name .notFinite)
  let convert : Except Fault (Option NDArray) :=
    match v.toArray (requested.map (·.dtype)) with
    | .ok a => do check a; return some a
    | .error (.conversion defect) => throw (.invalidArray name (.conversion defect))
    | .error fault => throw fault
  match v with
  | .array a =>
    if requested.all fun r => r.native && r.dtype == a.dtype then do check a; return none
    else convert
  | _ => convert

def finiteArray? (name : String) (v : Value) : Except Fault (Option NDArray) :=
  finiteArrayAs? name none v

def finiteArrayOf? (name : String) (v requested : Value) : Except Fault (Option NDArray) :=
  let refuse (defect : ConversionDefect) : Except Fault (Option NDArray) :=
    .error (.invalidArray name (.conversion defect))
  match requested with
  | .absent => finiteArray? name v
  | .text written =>
    match requestOf? written v with
    | some r => finiteArrayAs? name (some r) v
    | none => refuse (.unknownType (quoted written))
  | r => refuse (.noType r.written)

/-- The element type for buffers that hold values of a value's kind: its own if it is a real number
or array of some width, else double precision. -/
def bufferType : Value → DType
  | .scalar (.real p) _ => .real p
  | .array a => match a.dtype with
    | .real p => .real p
    | _ => .float64
  | _ => .float64

end Value

end ProxGrad
