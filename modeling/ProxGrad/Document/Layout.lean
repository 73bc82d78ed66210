import ProxGrad.Document.Scalar

/-!
# The layout of a document

Tokens in order, with the marks that indentation and colons imply. A token after which a colon
may still follow, and so make it a key, is a candidate: it and what follows are held back until
that is known. `Layout.read` gives the tokens that are certain, and the fault that ended the
reading if there was one.
-/

set_option autoImplicit false

namespace ProxGrad.Document

/-- A token that a colon may make a key. -/
structure Candidate where
  position : Nat
  required : Bool
  index : Nat
  line : Nat
  column : Nat
deriving DecidableEq, Repr

/-- A key and its colon stand on one line, with at most this many characters from the start of the
key. -/
def Candidate.reach : Nat := 1024

/-- How far a document has been read. -/
structure Layout where
  cursor : Cursor
  bound : Nat
  tokens : Array Token
  depth : Nat
  /-- The column of the innermost block collection, less than zero outside all of them. -/
  indent : Int
  /-- The columns of the block collections around it, the innermost first. -/
  outer : List Int
  keyAllowed : Bool
  /-- The candidate of each depth that has one, the innermost first. -/
  candidates : List (Nat × Candidate)
deriving Repr

namespace Layout

def ofText (text : List Char) : Layout :=
  ⟨.ofText text, text.length + 1, #[], 0, -1, [], true, []⟩

def inBlock (s : Layout) : Bool :=
  s.depth == 0

def certain (s : Layout) : Nat :=
  (s.candidates.map fun entry => entry.2.position).foldl min s.tokens.size

def emit (s : Layout) (t : Token) : Layout :=
  { s with tokens := s.tokens.push t }

def insertAt (s : Layout) (position : Nat) (t : Token) : Layout :=
  { s with tokens := s.tokens.insertIdxIfInBounds position t }

def expire (s : Layout) : Except Fault Layout :=
  let alive (entry : Nat × Candidate) : Bool :=
    entry.2.line == s.cursor.line && s.cursor.index ≤ entry.2.index + Candidate.reach
  if s.candidates.any fun entry => !alive entry && entry.2.required then refuseToken
  else .ok { s with candidates := s.candidates.filter alive }

def dropCandidate (s : Layout) : Except Fault Layout :=
  match s.candidates.lookup s.depth with
  | some k =>
    if k.required then refuseToken
    else .ok { s with candidates := s.candidates.filter fun entry => entry.1 != s.depth }
  | none => .ok s

def saveCandidate (s : Layout) : Except Fault Layout :=
  if s.keyAllowed then do
    let s ← s.dropCandidate
    let k : Candidate :=
      { position := s.tokens.size
        required := s.inBlock && s.indent == s.cursor.column
        index := s.cursor.index
        line := s.cursor.line
        column := s.cursor.column }
    .ok { s with candidates := (s.depth, k) :: s.candidates }
  else .ok s

def closeBlocks (column : Int) (s : Layout) : Layout :=
  if s.inBlock then
    close s s.indent s.outer
  else s
where
  close (s : Layout) (indent : Int) : List Int → Layout
    | [] => { s with indent, outer := [] }
    | enclosing :: rest =>
      if indent > column then close (s.emit .blockEnd) enclosing rest
      else { s with indent, outer := enclosing :: rest }

/-- Opens a block collection at a column to the right of the innermost one; its start goes to the
position. -/
def openBlock (start : Token) (column position : Nat) (s : Layout) : Layout :=
  if s.indent < column then
    { s.insertAt position start with indent := column, outer := s.indent :: s.outer }
  else s

/-- The place of the next token, after spaces, comments and breaks. In a block a key may start on
a new line. -/
def skipToToken : Nat → Layout → Layout
  | 0, s => s
  | bound + 1, s =>
    let c := (s.cursor.skip (· == ' ')).skipComment
    match c.lineBreak? with
    | some (_, c) =>
      skipToToken bound { s with cursor := c, keyAllowed := s.keyAllowed || s.inBlock }
    | none => { s with cursor := c }

def skipMark (s : Layout) : Layout :=
  if s.cursor.index == 0 && s.cursor.peek == '\uFEFF' then { s with cursor := s.cursor.forward }
  else s

def indicator (t : Token) (length : Nat) (keyAllowed : Bool) (s : Layout) : Layout :=
  { s.emit t with cursor := s.cursor.advance length, keyAllowed }

/-- Leaves all block collections before a directive, a document marker or the end. -/
def leaveBlocks (s : Layout) : Except Fault Layout :=
  (s.closeBlocks (-1)).dropCandidate

def openFlow (t : Token) (s : Layout) : Except Fault Layout := do
  let s ← s.saveCandidate
  .ok { s.indicator t 1 true with depth := s.depth + 1 }

def closeFlow (t : Token) (s : Layout) : Except Fault Layout := do
  let s ← s.dropCandidate
  .ok { s.indicator t 1 false with depth := s.depth - 1 }

/-- An indicator that may open a block collection. Outside of flow collections it stands only where
a key may start. -/
def blockIndicator (start : Token) (s : Layout) : Except Fault Layout := do
  if s.inBlock && !s.keyAllowed then refuseToken
  let s := if s.inBlock then s.openBlock start s.cursor.column s.tokens.size else s
  s.dropCandidate

def blockEntry (s : Layout) : Except Fault Layout := do
  let s ← s.blockIndicator .blockSequenceStart
  .ok (s.indicator .blockEntry 1 true)

def explicitKey (s : Layout) : Except Fault Layout := do
  let s ← s.blockIndicator .blockMappingStart
  .ok (s.indicator .key 1 s.inBlock)

def value (s : Layout) : Except Fault Layout :=
  match s.candidates.lookup s.depth with
  | some k =>
    let s := { s with candidates := s.candidates.filter fun entry => entry.1 != s.depth }
    let s := s.insertAt k.position .key
    let s := if s.inBlock then s.openBlock .blockMappingStart k.column k.position else s
    .ok (s.indicator .value 1 false)
  | none => do
    let s ← s.blockIndicator .blockMappingStart
    .ok (s.indicator .value 1 s.inBlock)

def keyToken (read : Cursor → Except Fault (Token × Cursor)) (s : Layout) :
    Except Fault Layout := do
  let s ← s.saveCandidate
  let (t, c) ← read s.cursor
  .ok { s.emit t with cursor := c, keyAllowed := false }

def named (make : String → Token) (s : Layout) : Except Fault Layout :=
  s.keyToken fun c => (c.anchorName).map fun (name, c) => (make name, c)

def quoted (q : Quote) (s : Layout) : Except Fault Layout :=
  s.keyToken fun c => (c.quoted q).map fun (text, c) => (.scalar text false, c)

def plain (s : Layout) : Except Fault Layout := do
  let s ← s.saveCandidate
  let (text, broken, c) := s.cursor.plain (!s.inBlock) (s.indent + 1).toNat
  .ok { s.emit (.scalar (.whole text) true) with cursor := c, keyAllowed := broken }

def block (folded : Bool) (s : Layout) : Except Fault Layout := do
  let s ← s.dropCandidate
  let (text, c) ← s.cursor.block folded (max 1 (s.indent + 1).toNat)
  .ok { s.emit (.scalar (.whole text) false) with cursor := c, keyAllowed := true }

def directive (s : Layout) : Except Fault Layout := do
  let s ← s.leaveBlocks
  let (t, c) ← s.cursor.directive
  .ok { s.emit t with cursor := c, keyAllowed := false }

def documentMarker (t : Token) (s : Layout) : Except Fault Layout := do
  let s ← s.leaveBlocks
  .ok (s.indicator t 3 false)

/-- The characters that do not start a plain scalar, as a rule. -/
def indicators : List Char :=
  "-?:,[]\x7b\x7d#&*!|>'\"%@`".toList

def startsPlain (s : Layout) : Bool :=
  let ch := s.cursor.peek
  !(isGap ch || indicators.contains ch)
    || (!isGap (s.cursor.peekAt 1) && (ch == '-' || (s.inBlock && (ch == '?' || ch == ':'))))

def token (s : Layout) : Except Fault Layout :=
  let c := s.cursor
  let separate := isGap (c.peekAt 1)
  let marker := c.column == 0 && c.atMarker
  match c.peek with
  | '%' => if c.column == 0 then s.directive else refuseToken
  | '[' => s.openFlow .flowSequenceStart
  | '{' => s.openFlow .flowMappingStart
  | ']' => s.closeFlow .flowSequenceEnd
  | '}' => s.closeFlow .flowMappingEnd
  | ',' => do
    let s ← s.dropCandidate
    .ok (s.indicator .flowEntry 1 true)
  | '*' => s.named .alias
  | '&' => s.named .anchor
  | '!' => s.keyToken fun c => c.tag.map fun (written, c) => (.tag written, c)
  | '\'' => s.quoted .single
  | '"' => s.quoted .double
  | ch =>
    if marker then s.documentMarker (if ch == '-' then .documentStart else .documentEnd)
    else if ch == '-' && separate then s.blockEntry
    else if ch == '?' && (!s.inBlock || separate) then s.explicitKey
    else if ch == ':' && (!s.inBlock || separate) then s.value
    else if ch == '|' && s.inBlock then s.block false
    else if ch == '>' && s.inBlock then s.block true
    else if s.startsPlain then s.plain
    else refuseToken

def step (s : Layout) : Except Fault Layout := do
  let s ← (s.skipMark.skipToToken s.bound).expire
  let s := s.closeBlocks s.cursor.column
  if s.cursor.atEnd then
    let s ← s.leaveBlocks
    .ok { s.emit .streamEnd with candidates := [] }
  else
    let s ← s.token
    s.expire

/-- What a document was read to: the tokens that are certain, and the fault after them. -/
structure Reading where
  tokens : List Token
  fault : Option Fault

/-- The next token of a text that is cut with a fault, or ends. A token that reaches the cut is not
read: what follows it is not known. -/
def stepBefore (cut : Option Fault) (s : Layout) : Except Fault Layout :=
  match cut with
  | none => s.step
  | some fault =>
    match s.step with
    | .error (.document .unfinished) => .error fault
    | .error other => .error other
    | .ok next => if next.cursor.atEnd then .error fault else .ok next

def readFrom (cut : Option Fault) : Nat → Layout → Reading
  | 0, s => ⟨s.tokens.toList, none⟩
  | fuel + 1, s =>
    match s.stepBefore cut with
    | .error f => ⟨s.tokens.toList.take s.certain, some f⟩
    | .ok next =>
      if next.tokens.back? = some .streamEnd then ⟨next.tokens.toList, none⟩
      else readFrom cut fuel next

/-- Reads a document. Every step but the last takes a character, so the bound is not met. -/
def read (text : Text) : Reading :=
  readFrom text.cut (text.chars.length + 2) (ofText text.chars)

end Layout

end ProxGrad.Document
