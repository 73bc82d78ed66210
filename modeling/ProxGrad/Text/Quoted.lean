import ProxGrad.Text.Padding
import ProxGrad.Text.Printable

/-!
# Text in quotes

The form in which messages show text: between single quotes, unless it contains those and no double
ones. A backslash stands before the quote and before itself; characters without a visible form are
written as escapes, the shortest that holds their number.
-/

set_option autoImplicit false

namespace ProxGrad

def hexDigits (count n : Nat) : String :=
  let digits := String.ofList (Nat.toDigits 16 n)
  repeated '0' (count - digits.length) ++ digits

def numericEscape (n : Nat) : String :=
  if n < 0x100 then "\\x" ++ hexDigits 2 n
  else if n < 0x10000 then "\\u" ++ hexDigits 4 n
  else "\\U" ++ hexDigits 8 n

def quoteFor (s : String) : Char :=
  if s.contains '\'' && !s.contains '"' then '"' else '\''

def quotedChar (quote c : Char) : String :=
  if c == quote || c == '\\' then String.ofList ['\\', c]
  else if c == '\n' then "\\n"
  else if c == '\r' then "\\r"
  else if c == '\t' then "\\t"
  else if isShown c then String.singleton c
  else numericEscape c.toNat

def quoted (s : String) : String :=
  let quote := quoteFor s
  String.singleton quote ++ String.join (s.toList.map (quotedChar quote)) ++ String.singleton quote

/-- Characters by number in quotes. A number of no character is written as an escape. -/
def quotedNumbers (codes : List Nat) : String :=
  let quote := quoteFor (String.ofList (codes.map Char.ofNat))
  let written (n : Nat) : String :=
    if n.isValidChar then quotedChar quote (Char.ofNat n) else numericEscape n
  String.singleton quote ++ String.join (codes.map written) ++ String.singleton quote

end ProxGrad
