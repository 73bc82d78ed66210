import ProxGrad.Tensor.Basic
import ProxGrad.Text.Padding

/-!
# Nested brackets

The words of an array between brackets, one pair for each of its sides, in lines of a given width. A
word of several lines is indented as a block. Of a long array the words at the edges are shown.
-/

set_option autoImplicit false

namespace ProxGrad

/-- A row of words in the making: the lines that are complete, and the last one. -/
structure Row where
  done : String
  line : String

namespace Row

def turn (row : Row) (start : String) : Row :=
  ⟨row.done ++ (row.line.dropEndWhile ' ').toString ++ "\n", start⟩

/-- The row with a word behind it, on a new line if the word ends beyond the width. A line with
nothing but its indent takes any word. -/
def push (width indent : Nat) (row : Row) (word : String) : Row :=
  let lines := word.splitOn "\n"
  let longest := lines.foldl (fun n line => max n line.length) 0
  let wraps := width < row.line.length + longest && indent < row.line.length
  match lines with
  | first :: rest =>
    let start := if wraps then row.turn (blanks indent ++ first)
      else { row with line := row.line ++ first }
    let hang := if wraps then indent else row.line.length
    let filled := rest.foldl (fun r line => r.turn (blanks hang ++ line)) start
    let last := (lines.getLast?.map String.length).getD 0
    { filled with line := filled.line ++ blanks (longest - last) }
  | [] => row

def ofWords (width indent : Nat) : Row → List String → Row
  | row, [] => row
  | row, [word] => row.push width indent word
  | row, word :: words =>
    let row := row.push width indent word
    ofWords width indent { row with line := row.line ++ ", " } words

end Row

/-- A side of an array in writing: how many of its entries are shown, and whether those in the
middle are left out. -/
structure Side where
  shown : Nat
  isCut : Bool
deriving DecidableEq, Repr

namespace Side

/-- The number of entries shown at each end of a side that is cut. -/
def edge : Nat := 3

/-- Whether a side of this length is cut, in an array that is shown at its edges. -/
def isLong (abridged : Bool) (n : Nat) : Bool :=
  abridged && 2 * edge < n

def ofLength (abridged : Bool) (n : Nat) : Side :=
  if isLong abridged n then ⟨2 * edge, true⟩ else ⟨n, false⟩

def dotted (side : Side) (parts : List String) : List String :=
  if side.isCut then parts.take edge ++ "..." :: parts.drop edge else parts

end Side

def edges {α : Type} (abridged : Bool) : List Nat → List α → List α
  | [], xs => xs
  | n :: shape, xs =>
    let parts := pieces (Shape.size shape) n xs
    let kept := if Side.isLong abridged n then parts.take Side.edge ++ parts.drop (n - Side.edge)
      else parts
    kept.flatMap (edges abridged shape)

/-- Words in brackets, one pair for each side, in lines of the width. Rows stand on lines of their
own, with an empty line for each further side. -/
def bracketed : Nat → Nat → List Side → List String → String
  | _, _, [], words => words.headD ""
  | width, indent, [side], words =>
    let row := Row.ofWords (width - 1) indent ⟨"", blanks indent⟩ (side.dotted words)
    "[" ++ ((row.done ++ row.line).drop indent).toString ++ "]"
  | width, indent, side :: sides, words =>
    let separator := "," ++ repeated '\n' sides.length ++ blanks indent
    let parts := (pieces (Shape.size (sides.map Side.shown)) side.shown words).map
      (bracketed (width - 1) (indent + 1) sides)
    "[" ++ separator.intercalate (side.dotted parts) ++ "]"

end ProxGrad
