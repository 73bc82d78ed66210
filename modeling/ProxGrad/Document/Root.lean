import ProxGrad.Document.Graph
import ProxGrad.Document.Number
import ProxGrad.Value.Basic

/-!
# The value of a document

What the root of a document stands for, as far as a reader of one mapping looks: the entries of the
root, with the collections below it known by their type alone. Still every node that the root
reaches must have a value. Nodes are valued level by level, so of two faults the one nearer to the
root is met first.
-/

set_option autoImplicit false

namespace ProxGrad.Document

/-- The key of an entry: text, text with a half of a pair in it, or a value of another type. -/
inductive Key where
  | text (s : String)
  | broken (codes : List Nat)
  | other
deriving DecidableEq, Repr

/-- What the root of a document is. -/
inductive Root where
  | mapping (entries : List (Key × Value))
  /-- A sequence, a set or bytes, with this many members. -/
  | collection (size : Nat)
  | single (v : Value)

/-- What a node stands for. -/
inductive Datum where
  | single (v : Value)
  /-- Text with a half of a pair in it. -/
  | broken (codes : List Nat)
  | bytes (size : Nat)
  | sequence
  | mapping
  | set

namespace Datum

def toValue : Datum → Value
  | .single v => v
  | .broken codes => .text (String.ofList (ScalarText.broken codes).chars)
  | .bytes _ => .ofTypeName "bytes"
  | .sequence => .ofTypeName "list"
  | .mapping => .ofTypeName "dict"
  | .set => .ofTypeName "set"

def toKey : Datum → Except Fault Key
  | .single (.text s) => .ok (.text s)
  | .broken codes => .ok (.broken codes)
  | .single _ | .bytes _ => .ok .other
  | .sequence | .mapping | .set => .error (.document .construction)

end Datum

/-! ## Scalars -/

def truthValue (text : List Char) : Except Fault Bool :=
  let word := String.ofList (text.map Char.toLower)
  if ["yes", "true", "on"].contains word then .ok true
  else if ["no", "false", "off"].contains word then .ok false
  else .error (.document .unknownTruth)

def dropFinalBreak (cs : List Char) : List Char :=
  if cs.getLast? == some '\n' then cs.dropLast else cs

def timeValue (text : List Char) : Except Fault Value :=
  match WrittenTime.read? (dropFinalBreak text) with
  | none => .error .noField
  | some t =>
    if t.isValid then .ok (.ofTypeName (if t.clock.isSome then "datetime" else "date"))
    else .error (.document .malformed)

def isSextet (c : Char) : Bool :=
  c.isAlphanum || c == '+' || c == '/'

/-- The number of bytes that sextets write: one for each that follows another in its group of four.
Other characters do not count. Padding that fills a group ends the text. The arguments are the
sextets of the last group, and the padding signs since. -/
def bytesSize : Nat → Nat → List Char → Except Fault Nat
  | place, _, [] => if place == 0 then .ok 0 else .error (.document .construction)
  | place, pads, c :: cs =>
    if c == '=' then
      if 2 ≤ place then
        if 4 ≤ place + pads + 1 then .ok 0 else bytesSize place (pads + 1) cs
      else bytesSize place pads cs
    else if isSextet c then
      (bytesSize ((place + 1) % 4) 0 cs).map (· + (if place == 0 then 0 else 1))
    else bytesSize place pads cs

def textValue : ScalarText → Datum
  | .whole s => .single (.text s)
  | .broken codes => .broken codes

def scalarValue (tag : Tag) (written : ScalarText) : Except Fault Datum :=
  let text := written.chars
  match tag with
  | .null => .ok (.single .absent)
  | .bool => (truthValue text).map fun b => .single (.bool b)
  | .int => (integerValue text).map fun n => .single (.int n)
  | .real => (realValue text).map fun x => .single (.real x)
  | .time => (timeValue text).map .single
  | .bytes =>
    if text.all fun c => c.toNat < 128 then (bytesSize 0 0 text).map .bytes
    else .error (.document .construction)
  | .text => .ok (textValue written)
  | _ => .error (.document .construction)

/-! ## Nodes -/

/-- The nodes of a document, with those that have a value and those whose members are still to be
valued. -/
structure Valuation where
  graph : Graph
  reached : List NodeId
  pending : List NodeId

/-- A step of valuing. -/
abbrev Evaluate := StateT Valuation (Except Fault)

namespace Evaluate

def fail {α : Type} : Evaluate α :=
  throw (.document .construction)

def node (id : NodeId) : Evaluate Node := do
  pure ((← get).graph.node id)

def setNode (id : NodeId) (n : Node) : Evaluate Unit :=
  modify fun v => { v with graph := v.graph.set id n }

def entries (id : NodeId) : Evaluate (List (NodeId × NodeId)) := do
  match (← node id).content with
  | .mapping es => pure es
  | _ => pure []

def setEntries (id : NodeId) (es : List (NodeId × NodeId)) : Evaluate Unit := do
  setNode id { (← node id) with content := .mapping es }

/-- The text of a scalar. A mapping with a default stands for the default, through the given number
of mappings. The answer tells whether there was none. -/
def text : Nat → NodeId → Evaluate (ScalarText × Bool)
  | 0, _ => throw (.document .endless)
  | depth + 1, id => do
    match (← node id).content with
    | .scalar s => pure (s, true)
    | .sequence _ => fail
    | .mapping es =>
      let g := (← get).graph
      match es.find? fun entry => (g.node entry.1).tag = .default with
      | some (_, value) => pure ((← text depth value).1, false)
      | none => fail

def later (id : NodeId) (d : Datum) : Evaluate Datum := do
  let v ← get
  if !v.reached.contains id then
    set { v with reached := id :: v.reached, pending := v.pending ++ [id] }
  pure d

def datum (id : NodeId) : Evaluate Datum := do
  let n ← node id
  match n.tag with
  | .sequence | .pairs | .orderedMapping => later id .sequence
  | .mapping => later id .mapping
  | .set => later id .set
  | .merge | .default | .unknown => fail
  | tag =>
    let (written, own) ← text ((← get).graph.nodes.size + 1) id
    if tag = .time && !own then throw .operandTypes
    match scalarValue tag written with
    | .ok d => pure d
    | .error f => throw f

/-! ## Merging -/

/-- The entries that the value of a merge key brings, after its own merges. Of several mappings the
last comes first. -/
def broughtBy (flatten : NodeId → Evaluate Unit) (id : NodeId) :
    Evaluate (List (NodeId × NodeId)) := do
  match (← node id).content with
  | .mapping _ =>
    flatten id
    entries id
  | .sequence items =>
    let lists ← items.mapM fun item => do
      match (← node item).content with
      | .mapping _ =>
        flatten item
        entries item
      | _ => fail
    pure lists.reverse.flatten
  | .scalar _ => fail

/-- What the merge keys among the given last entries of a mapping bring. Merge keys are taken out,
and a default key becomes text. If merging comes back to the same mapping, nothing of it is left to
do. -/
def merged (flatten : NodeId → Evaluate Unit) (id : NodeId) :
    Nat → List (NodeId × NodeId) → Evaluate (List (NodeId × NodeId))
  | _, [] => pure []
  | index, (key, value) :: rest => do
    match (← node key).tag with
    | .merge =>
      let remaining := (← entries id).eraseIdx index
      setEntries id remaining
      let brought ← broughtBy flatten value
      if (← entries id) = remaining then
        pure (brought ++ (← merged flatten id index rest))
      else pure brought
    | .default =>
      setNode key { (← node key) with tag := .text }
      merged flatten id (index + 1) rest
    | _ => merged flatten id (index + 1) rest

/-- Puts what merge keys bring in front of the entries of a mapping. Every merge takes an entry out,
which bounds the depth. -/
def flatten : Nat → NodeId → Evaluate Unit
  | 0, _ => pure ()
  | depth + 1, id => do
    let brought ← merged (flatten depth) id 0 (← entries id)
    if !brought.isEmpty then setEntries id (brought ++ (← entries id))

/-! ## Collections -/

def putEntry (es : List (Key × Value)) (key : Key) (value : Value) : List (Key × Value) :=
  match key with
  | .text _ | .broken _ =>
    if es.any fun entry => entry.1 == key then
      es.map fun entry => if entry.1 == key then (key, value) else entry
    else es ++ [(key, value)]
  | .other => es ++ [(key, value)]

def mappingEntries (id : NodeId) : Evaluate (List (Key × Value)) := do
  match (← node id).content with
  | .mapping _ =>
    let g := (← get).graph
    let total := g.nodes.foldl (fun n node => match node.content with
      | .mapping es => n + es.length
      | _ => n) 0
    flatten (total + 1) id
    (← entries id).foldlM (fun es (key, value) => do
      match (← datum key).toKey with
      | .ok k =>
        let v ← datum value
        pure (putEntry es k v.toValue)
      | .error f => throw f) []
  | _ => fail

def sequenceItems (id : NodeId) : Evaluate Nat := do
  match (← node id).content with
  | .sequence items =>
    for item in items do
      discard (datum item)
    pure items.length
  | _ => fail

def pairItems (id : NodeId) : Evaluate Nat := do
  match (← node id).content with
  | .sequence items =>
    for item in items do
      match (← node item).content with
      | .mapping [(key, value)] =>
        discard (datum key)
        discard (datum value)
      | _ => fail
    pure items.length
  | _ => fail

def members (id : NodeId) : Evaluate Root := do
  match (← node id).tag with
  | .mapping => .mapping <$> mappingEntries id
  | .set => (.collection ·.length) <$> mappingEntries id
  | .pairs | .orderedMapping => .collection <$> pairItems id
  | _ => .collection <$> sequenceItems id

/-- Values the members of the pending collections, and of those that come up, each once. -/
def finish : Nat → Evaluate Unit
  | 0 => pure ()
  | bound + 1 => do
    let v ← get
    match v.pending with
    | [] => pure ()
    | id :: rest =>
      set { v with pending := rest }
      discard (members id)
      finish bound

def root (id : NodeId) : Evaluate Root := do
  let d ← datum id
  let bound := (← get).graph.nodes.size + 1
  match d with
  | .single v => pure (.single v)
  | .broken _ => pure (.single d.toValue)
  | .bytes size => pure (.collection size)
  | _ =>
    modify fun v => { v with pending := [] }
    let r ← members id
    finish bound
    pure r

end Evaluate

def Root.read (text : Text) : Except Fault Root := do
  match ← Graph.read? text with
  | (none, _) => .ok (.single .absent)
  | (some id, graph) => ((Evaluate.root id).run ⟨graph, [], []⟩).map (·.1)

end ProxGrad.Document
