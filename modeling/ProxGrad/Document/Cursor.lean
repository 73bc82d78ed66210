import ProxGrad.Document.Text

/-!
# Places in a text

A cursor is what is left of a text together with the place it starts at. It moves by characters;
line and column follow. The character at the end of the text is null.
-/

set_option autoImplicit false

namespace ProxGrad.Document

def isBreak (c : Char) : Bool :=
  c == '\n' || c == '\x85' || c == '\u2028' || c == '\u2029'

def isBlank (c : Char) : Bool :=
  c == ' ' || c == '\t'

def endsLine (c : Char) : Bool :=
  c == '\x00' || isBreak c

def isSpaceOrEnd (c : Char) : Bool :=
  c == ' ' || endsLine c

/-- A blank, a break, or the end: what separates an indicator from what follows it. -/
def isGap (c : Char) : Bool :=
  isBlank c || endsLine c

/-- The rest of a text, and where in the text it starts. -/
structure Cursor where
  rest : List Char
  index : Nat
  line : Nat
  column : Nat
deriving DecidableEq, Repr

namespace Cursor

def ofText (text : List Char) : Cursor :=
  ⟨text, 0, 0, 0⟩

def peek (c : Cursor) : Char :=
  c.rest.headD '\x00'

def peekAt (c : Cursor) (n : Nat) : Char :=
  c.rest.getD n '\x00'

def atEnd (c : Cursor) : Bool :=
  c.rest.isEmpty

def forward (c : Cursor) : Cursor :=
  match c.rest with
  | [] => c
  | ch :: rest =>
    if isBreak ch then ⟨rest, c.index + 1, c.line + 1, 0⟩
    else if ch == '\uFEFF' then ⟨rest, c.index + 1, c.line, c.column⟩
    else ⟨rest, c.index + 1, c.line, c.column + 1⟩

def advance : Nat → Cursor → Cursor
  | 0, c => c
  | n + 1, c => advance n c.forward

def span (p : Char → Bool) (c : Cursor) : List Char × Cursor :=
  let run := c.rest.takeWhile p
  (run, c.advance run.length)

def skip (p : Char → Bool) (c : Cursor) : Cursor :=
  (c.span p).2

def lineBreak? (c : Cursor) : Option (Char × Cursor) :=
  let ch := c.peek
  if isBreak ch then some (if ch == '\x85' then '\n' else ch, c.forward) else none

def atMarker (c : Cursor) : Bool :=
  let mark := c.rest.take 3
  (mark == ['-', '-', '-'] || mark == ['.', '.', '.']) && isGap (c.peekAt 3)

def skipComment (c : Cursor) : Cursor :=
  if c.peek == '#' then c.skip (!endsLine ·) else c

def restOfLine (c : Cursor) : Except Fault Cursor :=
  let c := (c.skip (· == ' ')).skipComment
  if endsLine c.peek then .ok c.forward else .error (.document .token)

def skipIndent (column : Nat) (c : Cursor) : Cursor :=
  c.advance (min (c.rest.takeWhile (· == ' ')).length (column - c.column))

end Cursor

end ProxGrad.Document
