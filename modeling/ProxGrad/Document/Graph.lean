import ProxGrad.Document.Layout
import ProxGrad.Document.Tag

/-!
# The graph of a document

A document is a graph of nodes: an alias is one more edge to the node with the anchor, which may
enclose the alias. `Graph.read?` builds the graph of a text from its tokens, or finds that there is
none; faults come in the order of the text.
-/

set_option autoImplicit false

namespace ProxGrad.Document

/-- The place of a node in its graph. -/
abbrev NodeId := Nat

inductive Content where
  | scalar (text : ScalarText)
  | sequence (items : List NodeId)
  | mapping (entries : List (NodeId × NodeId))
deriving DecidableEq, Repr

structure Node where
  tag : Tag
  content : Content
deriving DecidableEq, Repr

/-- The nodes of a document by their places. -/
structure Graph where
  nodes : Array Node
deriving Repr

namespace Graph

def empty : Graph := ⟨#[]⟩

def node (g : Graph) (id : NodeId) : Node :=
  g.nodes.getD id ⟨.unknown, .scalar (.whole "")⟩

def add (g : Graph) (n : Node) : NodeId × Graph :=
  (g.nodes.size, ⟨g.nodes.push n⟩)

def set (g : Graph) (id : NodeId) (n : Node) : Graph :=
  ⟨g.nodes.setIfInBounds id n⟩

/-! ## From tokens -/

/-- How far a graph has been built. -/
structure Building where
  tokens : List Token
  fault : Option Fault
  handles : List (String × String)
  anchors : List (String × NodeId)
  graph : Graph

/-- A step of building. -/
abbrev Build := StateT Building (Except Fault)

namespace Build

def fail {α : Type} (defect : DocumentDefect) : Build α :=
  throw (.document defect)

def peek : Build Token := do
  let b ← get
  match b.tokens with
  | t :: _ => pure t
  | [] => throw (b.fault.getD (.document .grammar))

def skip : Build Unit :=
  modify fun b => { b with tokens := b.tokens.tail }

def at? (ts : List Token) : Build Bool := do
  let t ← peek
  pure (ts.contains t)

def take? (t : Token) : Build Bool := do
  if (← peek) = t then
    skip
    pure true
  else pure false

def expect (t : Token) : Build Unit := do
  if !(← take? t) then fail .grammar

def newNode (tag : Tag) (content : Content) : Build NodeId := do
  let b ← get
  let (id, graph) := b.graph.add ⟨tag, content⟩
  StateT.set { b with graph }
  pure id

def emptyNode : Build NodeId :=
  newNode (.ofPlain "") (.scalar (.whole ""))

def fill (id : NodeId) (content : Content) : Build Unit :=
  modify fun b => { b with graph := b.graph.set id { b.graph.node id with content } }

/-- An anchor and a tag before a node, in either order. -/
structure Properties where
  anchor : Option String
  tag : Option WrittenTag

def anchor? : Build (Option String) := do
  match ← peek with
  | .anchor name =>
    skip
    pure (some name)
  | _ => pure none

def tag? : Build (Option WrittenTag) := do
  match ← peek with
  | .tag written =>
    skip
    pure (some written)
  | _ => pure none

def properties : Build Properties := do
  match ← anchor? with
  | some name => pure ⟨some name, ← tag?⟩
  | none =>
    match ← tag? with
    | some written => pure ⟨← anchor?, some written⟩
    | none => pure ⟨none, none⟩

def tagText (written : WrittenTag) : Build String := do
  match written.handle with
  | none => pure written.suffix
  | some handle =>
    match (← get).handles.lookup handle with
    | some stem => pure (stem ++ written.suffix)
    | none => fail .grammar

def tagOr (written : Option String) (form : Tag) : Tag :=
  match written with
  | none | some "!" => form
  | some text => .ofText text

def anchored (anchor : Option String) (tag : Tag) (content : Content) : Build NodeId := do
  match anchor with
  | none => newNode tag content
  | some name =>
    if ((← get).anchors.lookup name).isSome then fail .composition
    let id ← newNode tag content
    modify fun b => { b with anchors := (name, id) :: b.anchors }
    pure id

/-- Where a node stands, which decides the forms it may have. -/
inductive Position where
  /-- Inside a flow collection. -/
  | flow
  | block
  /-- In a block mapping, where a sequence may be indented no further than the mapping. -/
  | mappingPart
deriving DecidableEq, Repr

/-- A node with the given number of tokens as a bound on its depth, where it is not missing. -/
def nodeOrEmpty (node : Build NodeId) (ends : List Token) : Build NodeId := do
  if ← at? ends then emptyNode else node

def blockItems (node : Build NodeId) (ends : List Token) : Nat → Build (List NodeId)
  | 0 => fail .grammar
  | bound + 1 => do
    if ← take? .blockEntry then
      let item ← nodeOrEmpty node (.blockEntry :: ends)
      pure (item :: (← blockItems node ends bound))
    else pure []

def blockEntries (node : Build NodeId) : Nat → Build (List (NodeId × NodeId))
  | 0 => fail .grammar
  | bound + 1 => do
    let ends := [.key, .value, .blockEnd]
    if ← take? .key then
      let key ← nodeOrEmpty node ends
      let value ← if ← take? .value then nodeOrEmpty node ends else emptyNode
      pure ((key, value) :: (← blockEntries node bound))
    else
      expect .blockEnd
      pure []

def separator (first : Bool) : Build Unit := do
  if !first then expect .flowEntry

def flowValue (node : Build NodeId) (close : Token) : Build NodeId := do
  if ← take? .value then nodeOrEmpty node [.flowEntry, close] else emptyNode

/-- The entries of a flow sequence after its start. A key in it makes a mapping of one entry. -/
def flowItems (node part : Build NodeId) : Nat → Bool → Build (List NodeId)
  | 0, _ => fail .grammar
  | bound + 1, first => do
    let close := Token.flowSequenceEnd
    if ← take? close then pure []
    else
      separator first
      if ← take? .key then
        let id ← newNode .mapping (.mapping [])
        let key ← nodeOrEmpty part [.value, .flowEntry, close]
        let value ← flowValue part close
        fill id (.mapping [(key, value)])
        pure (id :: (← flowItems node part bound false))
      else if ← take? close then pure []
      else
        let item ← node
        pure (item :: (← flowItems node part bound false))

def flowEntries (node : Build NodeId) : Nat → Bool → Build (List (NodeId × NodeId))
  | 0, _ => fail .grammar
  | bound + 1, first => do
    let close := Token.flowMappingEnd
    if ← take? close then pure []
    else
      separator first
      if ← take? .key then
        let key ← nodeOrEmpty node [.value, .flowEntry, close]
        let value ← flowValue node close
        pure ((key, value) :: (← flowEntries node bound false))
      else if ← take? close then pure []
      else
        let key ← node
        let value ← emptyNode
        pure ((key, value) :: (← flowEntries node bound false))

def formOf : ScalarText → Tag
  | .whole s => .ofPlain s
  | .broken _ => .text

/-- A node at a position, with `inside` for the parts of a collection and `beyond` for those of a
mapping of one entry in it. The number bounds the length of collections. -/
def nodeWith (bound : Nat) (inside beyond : Position → Build NodeId) (position : Position) :
    Build NodeId := do
  match ← peek with
  | .alias name =>
    skip
    match (← get).anchors.lookup name with
    | some id => pure id
    | none => fail .composition
  | _ =>
    let ⟨anchor, written⟩ ← properties
    let tag ← match written with
      | none => pure none
      | some written => some <$> tagText written
    let sequence (items : Build (List NodeId)) : Build NodeId := do
      let id ← anchored anchor (tagOr tag .sequence) (.sequence [])
      fill id (.sequence (← items))
      pure id
    let mapping (entries : Build (List (NodeId × NodeId))) : Build NodeId := do
      let id ← anchored anchor (tagOr tag .mapping) (.mapping [])
      fill id (.mapping (← entries))
      pure id
    match ← peek with
    | .scalar text plain =>
      skip
      let form := if plain || tag == some "!" then formOf text else .text
      anchored anchor (tagOr tag form) (.scalar text)
    | .flowSequenceStart =>
      sequence (skip *> flowItems (inside .flow) (beyond .flow) bound true)
    | .flowMappingStart =>
      mapping (skip *> flowEntries (inside .flow) bound true)
    | t =>
      if t = .blockEntry && position = .mappingPart then
        sequence (blockItems (inside .block) [.key, .value, .blockEnd] bound)
      else if t = .blockSequenceStart && position ≠ .flow then
        sequence do
          skip
          let items ← blockItems (inside .block) [.blockEnd] bound
          expect .blockEnd
          pure items
      else if t = .blockMappingStart && position ≠ .flow then
        mapping (skip *> blockEntries (inside .mappingPart) bound)
      else if anchor.isSome || tag.isSome then
        anchored anchor (tagOr tag (.ofPlain "")) (.scalar (.whole ""))
      else fail .grammar

/-- The number of collections around a node up to which it is followed. -/
def nesting : Nat := 489

def nodeAt (bound : Nat) : Nat → Position → Build NodeId
  | 0, _ => fail .nesting
  | 1, position => nodeWith bound (fun _ => fail .nesting) (fun _ => fail .nesting) position
  | depth + 2, position =>
    nodeWith bound (nodeAt bound (depth + 1)) (nodeAt bound depth) position

def rootNode (bound : Nat) : Build NodeId :=
  nodeAt bound (nesting + 1) .block

/-! ## Documents -/

/-- The handles that every document has. -/
def commonHandles : List (String × String) :=
  [("!", "!"), ("!!", Tag.stem)]

def directives : Nat → Bool → List (String × String) → Build (List (String × String))
  | 0, _, handles => pure handles
  | bound + 1, versioned, handles => do
    match ← peek with
    | .version major =>
      skip
      if versioned || major != 1 then fail .grammar
      directives bound true handles
    | .handle name stem =>
      skip
      if (handles.lookup name).isSome then fail .grammar
      directives bound versioned ((name, stem) :: handles)
    | .reserved =>
      skip
      directives bound versioned handles
    | _ => pure handles

def documentStart : Build Unit := do
  let handles ← directives (← get).tokens.length false []
  modify fun b => { b with handles := handles ++ commonHandles }
  expect .documentStart

def isDirective : Token → Bool
  | .version _ | .handle .. | .reserved => true
  | _ => false

def skipDocumentEnds : Nat → Build Unit
  | 0 => pure ()
  | bound + 1 => do
    if ← take? .documentEnd then skipDocumentEnds bound

def root? : Build (Option NodeId) := do
  let bound := (← get).tokens.length + 1
  let first ← peek
  if first = .streamEnd then pure none
  else
    let root ←
      if isDirective first || first = .documentStart then do
        documentStart
        let next ← peek
        if isDirective next || [.documentStart, .documentEnd, .streamEnd].contains next then
          emptyNode
        else rootNode bound
      else rootNode bound
    skipDocumentEnds bound
    if (← peek) = .streamEnd then pure (some root)
    else
      documentStart
      fail .composition

end Build

def read? (text : Text) : Except Fault (Option NodeId × Graph) :=
  let reading := Layout.read text
  let start : Building := ⟨reading.tokens, reading.fault, Build.commonHandles, [], .empty⟩
  (Build.root?.run start).map fun (root, b) => (root, b.graph)

end Graph

end ProxGrad.Document
