import ProxGrad.Decimal.Numeral
import ProxGrad.Document.Cursor

/-!
# Tokens

The tokens of a document, and the reading of those that stand on one line: names, tags and
directives. Each reader starts at the first character of its token and gives what it read with the
place after it.
-/

set_option autoImplicit false

namespace ProxGrad.Document

/-- A tag as it is written: a handle, whose meaning a directive gives, and a suffix. -/
structure WrittenTag where
  handle : Option String
  suffix : String
deriving DecidableEq, Repr

/-- The text of a scalar. An escape can write half of a pair, which no text has; then the numbers of
its characters are kept. -/
inductive ScalarText where
  | whole (s : String)
  | broken (codes : List Nat)
deriving DecidableEq, Repr

namespace ScalarText

def isHalf (code : Nat) : Bool :=
  0xD800 ≤ code && code ≤ 0xDFFF

def ofCodes (codes : List Nat) : ScalarText :=
  if codes.any isHalf then .broken codes else .whole (String.ofList (codes.map Char.ofNat))

def chars : ScalarText → List Char
  | .whole s => s.toList
  | .broken codes => codes.map fun code => if isHalf code then '\uFFFD' else Char.ofNat code

end ScalarText

inductive Token where
  /-- The directive that names the version of the format. -/
  | version (major : Nat)
  /-- The directive that gives a tag handle its meaning. -/
  | handle (name stem : String)
  /-- A directive without a meaning. -/
  | reserved
  | documentStart
  | documentEnd
  | streamEnd
  | blockSequenceStart
  | blockMappingStart
  | blockEnd
  | flowSequenceStart
  | flowSequenceEnd
  | flowMappingStart
  | flowMappingEnd
  | flowEntry
  | blockEntry
  | key
  | value
  | alias (name : String)
  | anchor (name : String)
  | tag (written : WrittenTag)
  /-- A scalar, and whether it stands without quotes. -/
  | scalar (text : ScalarText) (plain : Bool)
deriving DecidableEq, Repr

def isNameChar (c : Char) : Bool :=
  c.isAlphanum || c == '-' || c == '_'

/-- The characters of tags besides letters and digits. -/
def tagMarks : List Char :=
  "-;/?:@&=+$,_.!~*'()[]%".toList

def isTagChar (c : Char) : Bool :=
  c.isAlphanum || tagMarks.contains c

def isHexDigit (c : Char) : Bool :=
  c.isDigit || ('a' ≤ c && c ≤ 'f') || ('A' ≤ c && c ≤ 'F')

def hexDigitValue (c : Char) : Nat :=
  if c.isDigit then c.toNat - '0'.toNat
  else if 'a' ≤ c then c.toNat - 'a'.toNat + 10
  else c.toNat - 'A'.toNat + 10

def natOfHex (cs : List Char) : Nat :=
  cs.foldl (fun n c => 16 * n + hexDigitValue c) 0

def refuseToken {α : Type} : Except Fault α :=
  .error (.document .token)

namespace Cursor

def refuse {α : Type} (c : Cursor) : Except Fault α :=
  .error (.document (if c.atEnd then .unfinished else .token))

def name (c : Cursor) : Except Fault (String × Cursor) :=
  match c.span isNameChar with
  | ([], c) => c.refuse
  | (run, c) => .ok (String.ofList run, c)

/-- The name of an anchor or an alias after its indicator. What follows ends it. -/
def anchorName (c : Cursor) : Except Fault (String × Cursor) := do
  let (name, c) ← c.forward.name
  if isGap c.peek || "?:,]\x7d%@`".toList.contains c.peek then .ok (name, c) else c.refuse

/-- A handle of a tag: an exclamation mark alone, or a name between two of them. -/
def tagHandle (c : Cursor) : Except Fault (String × Cursor) :=
  if c.peek != '!' then c.refuse
  else
    let c := c.forward
    if c.peek == ' ' then .ok ("!", c)
    else
      let (run, c) := c.span isNameChar
      if c.peek == '!' then .ok (String.ofList ('!' :: run ++ ['!']), c.forward) else c.refuse

/-- The bytes that a run of escapes writes, each as a percent sign and two hexadecimal digits. -/
def escapedBytes : List Char → Except Fault (List UInt8)
  | '%' :: a :: b :: rest =>
    if isHexDigit a && isHexDigit b then
      (escapedBytes rest).map (UInt8.ofNat (natOfHex [a, b]) :: ·)
    else refuseToken
  | '%' :: _ => refuseToken
  | _ => .ok []

/-- The text of a tag: its characters, with runs of escapes read as UTF-8. The number bounds the
runs that are read. -/
def tagPieces : Nat → Cursor → Except Fault (List Char × Cursor)
  | 0, c => .ok ([], c)
  | fuel + 1, c =>
    if c.peek == '%' then do
      let bytes ← escapedBytes c.rest
      match String.fromUTF8? ⟨bytes.toArray⟩ with
      | none => refuseToken
      | some text => do
        let (more, c) ← tagPieces fuel (c.advance (3 * bytes.length))
        .ok (text.toList ++ more, c)
    else
      match c.span fun ch => isTagChar ch && ch != '%' with
      | ([], c) => .ok ([], c)
      | (run, c) => do
        let (more, c) ← tagPieces fuel c
        .ok (run ++ more, c)

def tagText (c : Cursor) : Except Fault (String × Cursor) :=
  if isTagChar c.peek then do
    let (text, c) ← tagPieces c.rest.length c
    .ok (String.ofList text, c)
  else c.refuse

/-- A tag: a whole one between angle brackets, an exclamation mark alone, or a handle with a
suffix. -/
def tag (c : Cursor) : Except Fault (WrittenTag × Cursor) := do
  let next := c.peekAt 1
  let (written, c) ←
    if next == '<' then do
      let (text, c) ← (c.advance 2).tagText
      if c.peek == '>' then .ok (⟨none, text⟩, c.forward) else c.refuse
    else if isGap next then .ok (⟨none, "!"⟩, c.forward)
    else do
      let word := (c.rest.drop 1).takeWhile (!isSpaceOrEnd ·)
      let (handle, c) ← if word.contains '!' then c.tagHandle else .ok ("!", c.forward)
      let (suffix, c) ← c.tagText
      .ok (⟨some handle, suffix⟩, c)
  if isSpaceOrEnd c.peek then .ok (written, c) else c.refuse

def decimalNumber (c : Cursor) : Except Fault (Nat × Cursor) :=
  match c.span Char.isDigit with
  | ([], c) => c.refuse
  | (run, c) => .ok (natOfDigits run, c)

def versionValue (c : Cursor) : Except Fault (Token × Cursor) := do
  let (major, c) ← (c.skip (· == ' ')).decimalNumber
  if c.peek != '.' then c.refuse
  let (_, c) ← c.forward.decimalNumber
  if isSpaceOrEnd c.peek then .ok (.version major, c) else c.refuse

def handleValue (c : Cursor) : Except Fault (Token × Cursor) := do
  let (name, c) ← (c.skip (· == ' ')).tagHandle
  if c.peek != ' ' then c.refuse
  let (stem, c) ← (c.skip (· == ' ')).tagText
  if isSpaceOrEnd c.peek then .ok (.handle name stem, c) else c.refuse

def directive (c : Cursor) : Except Fault (Token × Cursor) := do
  let (name, c) ← c.forward.name
  if !isSpaceOrEnd c.peek then c.refuse
  let (token, c) ←
    if name == "YAML" then c.versionValue
    else if name == "TAG" then c.handleValue
    else .ok (.reserved, c.skip (!endsLine ·))
  let c ← c.restOfLine
  .ok (token, c)

end Cursor

end ProxGrad.Document
