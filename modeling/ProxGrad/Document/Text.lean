import ProxGrad.Document.Bytes
import ProxGrad.Fault

/-!
# Document text

The characters of a document: bytes in UTF-8, every line ending read as one line feed, and no
character outside the printable ones. A document is read block by block, so that a fault in it is
met only when its block is needed: `Document.decode` gives the characters in front of that block
and the fault behind them. They have no null character, so a null can stand for the end of the text.
-/

set_option autoImplicit false

namespace ProxGrad.Document

/-- Characters with every carriage return, alone or before a line feed, read as one line feed. -/
def joinLineEndings : List Char → List Char
  | '\r' :: '\n' :: cs => '\n' :: joinLineEndings cs
  | '\r' :: cs => '\n' :: joinLineEndings cs
  | c :: cs => c :: joinLineEndings cs
  | [] => []

def isPrintable (c : Char) : Bool :=
  let n := c.toNat
  c == '\t' || c == '\n' || c == '\r' || n == 0x85
    || (0x20 ≤ n && n ≤ 0x7E) || (0xA0 ≤ n && n ≤ 0xFFFD) || 0x10000 ≤ n

/-- The characters of a document as far as they can be read. -/
structure Text where
  chars : List Char
  cut : Option Fault

/-- The number of characters of a block. -/
def blockSize : Nat := 4096

/-- The number of bytes that are decoded at once. -/
def chunkSize : Nat := 8192

/-- The first character of the block of a character. The first two blocks are read as one. -/
def blockStart (index : Nat) : Nat :=
  if index < 2 * blockSize then 0 else blockSize * (index / blockSize)

def takeBytes : Nat → List Char → List Char
  | _, [] => []
  | limit, c :: cs => if c.utf8Size ≤ limit then c :: takeBytes (limit - c.utf8Size) cs else []

/-- The number of characters that are known before a byte is decoded, of the characters in front of
it. A carriage return at their end waits for what follows. -/
def knownBefore (byte : Nat) (cs : List Char) : Nat :=
  let known := takeBytes (chunkSize * (byte / chunkSize)) cs
  (joinLineEndings (if known.getLast? = some '\r' then known.dropLast else known)).length

def endByte (size : Nat) : Nat :=
  (size + chunkSize - 1) / chunkSize * chunkSize

def Text.upTo (chars : List Char) : Option (Nat × DocumentDefect) → Text
  | none => ⟨chars, none⟩
  | some (place, defect) => ⟨chars.take place, some (.document defect)⟩

/-- The fault that is met first, of bytes that are no text and a character that documents do not
contain, each with the place where it is met. -/
def firstDefect (broken hidden : Option Nat) : Option (Nat × DocumentDefect) :=
  match broken, hidden with
  | none, hidden => hidden.map (·, .character)
  | some b, some h => if b ≤ h then some (b, .encoding) else some (h, .character)
  | some b, none => some (b, .encoding)

/-- The place where a byte that is no text is met, of bytes that hold these characters before it. -/
def metAt (size : Nat) (cs : List Char) (byte : Nat) : Nat :=
  blockStart (knownBefore (if byte = size then endByte size else byte) cs)

def decode (bytes : ByteArray) : Text :=
  let extent := textExtent .nothing 0 0 bytes.toList
  let read := ((String.fromUTF8? (bytes.extract 0 extent.whole)).getD "").toList
  let chars := joinLineEndings read
  let shown := (chars.takeWhile isPrintable).length
  let hidden := if shown < chars.length then some (blockStart shown) else none
  .upTo (chars.takeWhile isPrintable)
    (firstDefect (extent.refused.map (metAt bytes.size read)) hidden)

end ProxGrad.Document
