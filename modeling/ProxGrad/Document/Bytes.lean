/-!
# Bytes of text

UTF-8 as a machine that takes one byte at a time. It refuses a byte as soon as no text goes on with
it, so that it tells how far bytes are text.
-/

set_option autoImplicit false

namespace ProxGrad.Document

/-- What may follow in a character: so many more bytes, the next one between two bounds. -/
structure Owed where
  count : Nat
  low : Nat
  high : Nat
deriving DecidableEq, Repr

namespace Owed

def nothing : Owed :=
  ⟨0, 0x80, 0xBF⟩

def afterFirst? (b : Nat) : Option Owed :=
  if b < 0x80 then some nothing
  else if b < 0xC2 then none
  else if b < 0xE0 then some ⟨1, 0x80, 0xBF⟩
  else if b = 0xE0 then some ⟨2, 0xA0, 0xBF⟩
  else if b = 0xED then some ⟨2, 0x80, 0x9F⟩
  else if b < 0xF0 then some ⟨2, 0x80, 0xBF⟩
  else if b = 0xF0 then some ⟨3, 0x90, 0xBF⟩
  else if b < 0xF4 then some ⟨3, 0x80, 0xBF⟩
  else if b = 0xF4 then some ⟨3, 0x80, 0x8F⟩
  else none

def after? (owed : Owed) (b : Nat) : Option Owed :=
  match owed.count with
  | 0 => afterFirst? b
  | count + 1 => if owed.low ≤ b && b ≤ owed.high then some ⟨count, 0x80, 0xBF⟩ else none

end Owed

/-- How far bytes are text. -/
structure TextExtent where
  /-- The number of bytes of the characters that are complete. -/
  whole : Nat
  /-- The place of the byte that was refused, which may be the end. -/
  refused : Option Nat
deriving DecidableEq, Repr

def textExtent (owed : Owed) (whole index : Nat) : List UInt8 → TextExtent
  | [] => if owed.count = 0 then ⟨whole, none⟩ else ⟨whole, some index⟩
  | b :: bytes =>
    match owed.after? b.toNat with
    | none => ⟨whole, some index⟩
    | some next => textExtent next (if next.count = 0 then index + 1 else whole) (index + 1) bytes

end ProxGrad.Document
