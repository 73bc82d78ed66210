import ProxGrad.Document.Token

/-!
# The text of scalars

A scalar stands plain, between quotes, or as an indented block. Line breaks inside are folded: a
single one is read as a space, further ones are kept. Numbers that bound a recursion are at least
the number of characters left.
-/

set_option autoImplicit false

namespace ProxGrad.Document

/-- What a folded break is read as: a space, unless more breaks follow or it is one that is always
kept. -/
def foldBreak (first : Char) (more : List Char) : List Char :=
  if first != '\n' then first :: more
  else if more.isEmpty then [' ']
  else more

/-! ## Between quotes -/

inductive Quote where
  | single
  | double
deriving DecidableEq, Repr

def Quote.char : Quote → Char
  | .single => '\''
  | .double => '"'

def letterEscape? : Char → Option Char
  | '0' => some '\x00'
  | 'a' => some '\x07'
  | 'b' => some '\x08'
  | 't' | '\t' => some '\t'
  | 'n' => some '\n'
  | 'v' => some '\x0b'
  | 'f' => some '\x0c'
  | 'r' => some '\r'
  | 'e' => some '\x1b'
  | ' ' => some ' '
  | '"' => some '"'
  | '\\' => some '\\'
  | '/' => some '/'
  | 'N' => some '\u0085'
  | '_' => some '\u00a0'
  | 'L' => some '\u2028'
  | 'P' => some '\u2029'
  | _ => none

def escapeDigits? : Char → Option Nat
  | 'x' => some 2
  | 'u' => some 4
  | 'U' => some 8
  | _ => none

def checkCode (n : Nat) : Except Fault Nat :=
  if n ≥ 0x80000000 then .error (.document .range)
  else if n > 0x10FFFF then .error (.document .malformed)
  else .ok n

def codesOf (cs : List Char) : List Nat :=
  cs.map Char.toNat

namespace Cursor

/-- Breaks and blanks between the lines of a quoted scalar; the breaks are kept. A document
marker may not stand there. -/
def quotedBreaks : Nat → Cursor → Except Fault (List Char × Cursor)
  | 0, _ => refuseToken
  | fuel + 1, c =>
    if c.atMarker then refuseToken
    else
      let c := c.skip isBlank
      match c.lineBreak? with
      | none => .ok ([], c)
      | some (b, c) => do
        let (more, c) ← quotedBreaks fuel c
        .ok (b :: more, c)

def escape (c : Cursor) : Except Fault (List Nat × Cursor) :=
  match letterEscape? c.peek, escapeDigits? c.peek with
  | some ch, _ => .ok ([ch.toNat], c.forward)
  | none, some count =>
    let digits := (c.forward.rest.take count).takeWhile isHexDigit
    let after := c.advance (digits.length + 1)
    if digits.length == count then do
      let code ← checkCode (natOfHex digits)
      .ok ([code], after)
    else after.refuse
  | none, none =>
    match c.lineBreak? with
    | some (_, c) => (quotedBreaks (c.rest.length + 1) c).map fun (cs, c) => (codesOf cs, c)
    | none => c.refuse

/-- Blanks inside a quoted scalar. Before a break they are dropped, and the break is folded. -/
def quotedSpace (c : Cursor) : Except Fault (List Char × Cursor) :=
  let (blanks, c) := c.span isBlank
  match c.lineBreak? with
  | some (b, c) => do
    let (more, c) ← quotedBreaks (c.rest.length + 1) c
    .ok (foldBreak b more, c)
  | none => if c.atEnd then c.refuse else .ok (blanks, c)

def quotedText (q : Quote) : Nat → Cursor → Except Fault (List Nat × Cursor)
  | 0, c => c.refuse
  | fuel + 1, c => do
    let ch := c.peek
    if ch == q.char && !(q = .single && c.peekAt 1 == '\'') then .ok ([], c.forward)
    else
      let (piece, c) ←
        if ch == q.char then .ok (codesOf ['\''], c.advance 2)
        else if q = .double && ch == '\\' then c.forward.escape
        else if isGap ch then c.quotedSpace.map fun (cs, c) => (codesOf cs, c)
        else .ok ([ch.toNat], c.forward)
      let (more, c) ← quotedText q fuel c
      .ok (piece ++ more, c)

def quoted (q : Quote) (c : Cursor) : Except Fault (ScalarText × Cursor) := do
  let (codes, c) ← quotedText q c.rest.length c.forward
  .ok (.ofCodes codes, c)

/-! ## Plain scalars -/

def endsKey (flow : Bool) (rest : List Char) : Bool :=
  match rest with
  | [] => true
  | ch :: _ => isGap ch || (flow && ",[]\x7b\x7d".toList.contains ch)

/-- The number of characters at the front that a plain scalar takes before a blank. -/
def plainLength (flow : Bool) : List Char → Nat
  | [] => 0
  | ch :: rest =>
    if isGap ch || (ch == ':' && endsKey flow rest)
        || (flow && ",?[]\x7b\x7d".toList.contains ch) then 0
    else plainLength flow rest + 1

/-- Breaks and spaces between the lines of a plain scalar; the breaks are kept. Nothing, if a
document marker is met. -/
def plainBreaks : Nat → Cursor → Option (List Char) × Cursor
  | 0, c => (some [], c)
  | fuel + 1, c =>
    if c.atMarker then (none, c)
    else
      let c := c.skip (· == ' ')
      match c.lineBreak? with
      | none => (some [], c)
      | some (b, c) =>
        let (more, c) := plainBreaks fuel c
        (more.map (b :: ·), c)

/-- What stands between two words of a plain scalar, and whether a line ended there. -/
structure Gap where
  text : List Char
  broken : Bool

def plainGap (c : Cursor) : Gap × Cursor :=
  let (spaces, c) := c.span (· == ' ')
  match c.lineBreak? with
  | none => (⟨spaces, false⟩, c)
  | some (b, c) =>
    let (more, c) := plainBreaks (c.rest.length + 1) c
    (⟨(more.map (foldBreak b)).getD [], true⟩, c)

/-- The text of a plain scalar from a place between two words, with the gap before it. The answer
tells whether it ended after a line break. -/
def plainText (flow : Bool) (indent : Nat) :
    Nat → Gap → Cursor → List Char × Bool × Cursor
  | 0, before, c => ([], before.broken, c)
  | fuel + 1, before, c =>
    let length := if c.peek == '#' then 0 else plainLength flow c.rest
    if length == 0 then ([], before.broken, c)
    else
      let word := c.rest.take length
      let (gap, c) := (c.advance length).plainGap
      if gap.text.isEmpty || c.peek == '#' || (!flow && c.column < indent) then
        (before.text ++ word, gap.broken, c)
      else
        let (more, broken, c) := plainText flow indent fuel gap c
        (before.text ++ word ++ more, broken, c)

def plain (flow : Bool) (indent : Nat) (c : Cursor) : String × Bool × Cursor :=
  let (text, broken, c) := plainText flow indent (c.rest.length + 1) ⟨[], false⟩ c
  (String.ofList text, broken, c)

/-! ## Blocks -/

end Cursor

/-- What happens to the breaks at the end of a block. -/
inductive Chomping where
  | strip
  | clip
  | keep
deriving DecidableEq, Repr

namespace Cursor

def chomping? : Char → Option Chomping
  | '-' => some .strip
  | '+' => some .keep
  | _ => none

def increment (c : Cursor) : Except Fault (Option Nat × Cursor) :=
  if !c.peek.isDigit then .ok (none, c)
  else if c.peek == '0' then c.refuse
  else .ok (some (c.peek.toNat - '0'.toNat), c.forward)

def blockHeader (c : Cursor) : Except Fault (Chomping × Option Nat × Cursor) := do
  let (chomping, width, c) ←
    match chomping? c.peek with
    | some chomping => do
      let (width, c) ← c.forward.increment
      .ok (chomping, width, c)
    | none => do
      let (width, c) ← c.increment
      match width, chomping? c.peek with
      | some _, some chomping => .ok (chomping, width, c.forward)
      | _, _ => .ok (Chomping.clip, width, c)
  if isSpaceOrEnd c.peek then .ok (chomping, width, c) else c.refuse

def blockBreaks (indent : Nat) : Nat → Cursor → List Char × Cursor
  | 0, c => ([], c)
  | fuel + 1, c =>
    let c := c.skipIndent indent
    match c.lineBreak? with
    | none => ([], c)
    | some (b, c) =>
      let (more, c) := blockBreaks indent fuel c
      (b :: more, c)

/-- Empty lines before a block whose first line shows its indentation, with the widest
indentation met. -/
def leadingBreaks : Nat → Nat → Cursor → List Char × Nat × Cursor
  | 0, widest, c => ([], widest, c)
  | fuel + 1, widest, c =>
    let c := c.skip (· == ' ')
    let widest := max widest c.column
    match c.lineBreak? with
    | none => ([], widest, c)
    | some (b, c) =>
      let (more, widest, c) := leadingBreaks fuel widest c
      (b :: more, widest, c)

/-- The lines of a block, with the breaks that end it. -/
structure Block where
  text : List Char
  lastBreak : List Char
  emptyLines : List Char
  after : Cursor

/-- The lines of a block from a line that belongs to it. In a folded one a break between two lines
that do not start with a blank is folded. -/
def blockLines (folded : Bool) (indent : Nat) : Nat → List Char → Cursor → Block
  | 0, before, c => ⟨before, [], [], c⟩
  | fuel + 1, before, c =>
    let startsBlank := isBlank c.peek
    let (line, c) := c.span (!isBreak ·)
    let (lineBreak, c) := match c.lineBreak? with
      | some (b, c) => ([b], c)
      | none => ([], c)
    let (breaks, c) := blockBreaks indent (c.rest.length + 1) c
    if c.column == indent && !c.atEnd then
      let joint :=
        if folded && lineBreak == ['\n'] && !startsBlank && !isBlank c.peek then
          if breaks.isEmpty then [' '] else []
        else lineBreak
      let block := blockLines folded indent fuel breaks c
      { block with text := before ++ line ++ joint ++ block.text }
    else ⟨before ++ line, lineBreak, breaks, c⟩

def block (folded : Bool) (least : Nat) (c : Cursor) : Except Fault (String × Cursor) := do
  let (chomping, width, c) ← c.forward.blockHeader
  let c ← c.restOfLine
  let bound := c.rest.length + 1
  let (indent, breaks, c) := match width with
    | some width =>
      let indent := least + width - 1
      let (breaks, c) := blockBreaks indent bound c
      (indent, breaks, c)
    | none =>
      let (breaks, widest, c) := leadingBreaks bound 0 c
      (max least widest, breaks, c)
  let b := if c.column == indent && !c.atEnd then blockLines folded indent bound breaks c
    else ⟨[], [], breaks, c⟩
  let tail := match chomping with
    | .strip => []
    | .clip => b.lastBreak
    | .keep => b.lastBreak ++ b.emptyLines
  .ok (String.ofList (b.text ++ tail), b.after)

end Cursor

end ProxGrad.Document
