import ProxGrad.Numeric.NDArray

/-!
# Values

What callers hand to the library: literals, which adapt to the arrays they meet, single numbers
with an element type, arrays, sequences, and values that are only passed along. Operations state
what they accept; nothing about a value is assumed before it is looked at. Every value is also an
entry of its own, `Value.toEntry`, and nothing is lost on the way.
-/

set_option autoImplicit false

namespace ProxGrad

/-- A value of any kind. -/
inductive Value where
  | absent
  | bool (b : Bool)
  | int (i : Int)
  | real (x : Binary)
  | complex (re im : Binary)
  | text (s : String)
  /-- Text by number, not all of them numbers of characters. -/
  | brokenText (codes : List Nat)
  | list (items : List Value)
  | tuple (items : List Value)
  | dict (fields : List (String × Value))
  | fraction (num : Int) (den : Nat)
  | decimal (d : DecimalValue)
  /-- One number with an element type. -/
  | scalar (dtype : DType) (x : Scalar)
  | array (a : NDArray)
  /-- A value known only by the name of its type and by its text. -/
  | other (typeName form : String)

instance : Inhabited Value := ⟨.absent⟩

namespace Value

/-! ## Values as entries -/

mutual

def toEntry : Value → Scalar
  | .absent => .absent
  | .bool b => .bool b
  | .int i => .int i
  | .real x => .real x
  | .complex re im => .complex re im
  | .text s => .text s
  | .brokenText codes => .brokenText codes
  | .list items => .list (toEntries items)
  | .tuple items => .tuple (toEntries items)
  | .dict fields => .dict (toEntryFields fields)
  | .fraction num den => .ratio num den
  | .decimal d => .decimal d
  | .scalar d x => .number d x
  | .array a => .table a.dtype a.shape a.data.entries
  | .other t form => .foreign t form

def toEntries : List Value → List Scalar
  | [] => []
  | v :: vs => toEntry v :: toEntries vs

def toEntryFields : List (String × Value) → List (String × Scalar)
  | [] => []
  | (name, v) :: fields => (name, toEntry v) :: toEntryFields fields

end

mutual

def ofEntry : Scalar → Value
  | .absent => .absent
  | .bool b => .bool b
  | .int i => .int i
  | .real x => .real x
  | .complex re im => .complex re im
  | .text s => .text s
  | .brokenText codes => .brokenText codes
  | .list items => .list (ofEntries items)
  | .tuple items => .tuple (ofEntries items)
  | .dict fields => .dict (ofEntryFields fields)
  | .ratio num den => .fraction num den
  | .decimal d => .decimal d
  | .number d x => .scalar d x
  | .table d shape entries =>
    match Tensor.ofShape? shape entries with
    | some data => .array ⟨d, data⟩
    | none => .absent
  | .foreign t form => .other t form

def ofEntries : List Scalar → List Value
  | [] => []
  | x :: xs => ofEntry x :: ofEntries xs

def ofEntryFields : List (String × Scalar) → List (String × Value)
  | [] => []
  | (name, x) :: fields => (name, ofEntry x) :: ofEntryFields fields

end

mutual

/-- An entry made of a value is that value. -/
theorem ofEntry_toEntry (v : Value) : ofEntry (toEntry v) = v := by
  cases v with
  | list items => simp [toEntry, ofEntry, ofEntries_toEntries items]
  | tuple items => simp [toEntry, ofEntry, ofEntries_toEntries items]
  | dict fields => simp [toEntry, ofEntry, ofEntryFields_toEntryFields fields]
  | array a => simp [toEntry, ofEntry, Tensor.ofShape?, NDArray.shape, a.data.length_entries]
  | _ => simp [toEntry, ofEntry]

theorem ofEntries_toEntries (vs : List Value) : ofEntries (toEntries vs) = vs := by
  cases vs with
  | nil => simp [toEntries, ofEntries]
  | cons v vs => simp [toEntries, ofEntries, ofEntry_toEntry v, ofEntries_toEntries vs]

theorem ofEntryFields_toEntryFields (fields : List (String × Value)) :
    ofEntryFields (toEntryFields fields) = fields := by
  cases fields with
  | nil => simp [toEntryFields, ofEntryFields]
  | cons field fields =>
    obtain ⟨name, v⟩ := field
    simp [toEntryFields, ofEntryFields, ofEntry_toEntry v, ofEntryFields_toEntryFields fields]

end

def ofNumbers (codes : List Nat) : Value :=
  if codes.all fun n => n.isValidChar then .text (String.ofList (codes.map Char.ofNat))
  else .brokenText codes

def ofTypeName (t : String) : Value :=
  .other t ("<" ++ t ++ ">")

def typeName (v : Value) : String :=
  v.toEntry.valueType

def ofRatio (num den : Int) : Value :=
  let g := Nat.gcd num.natAbs den.natAbs
  let num := if den < 0 then -num else num
  .fraction (num.tdiv g) (den.natAbs / g)

/-- The truth of a value: whether it is not zero and not empty. An array of one entry has that
entry's truth; of another there is none. -/
def truth? (v : Value) : Except Fault Bool :=
  v.toEntry.truth?

def ofResult (a : NDArray) : Value :=
  match a.shape, a.data.entries with
  | [], [x] => if a.dtype = .object then ofEntry x else .scalar a.dtype x
  | _, _ => .array a

end Value

end ProxGrad
