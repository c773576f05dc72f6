import LosslessTree.Language.Markdown.Block

/-! Lines as the block structure sees them: after the markers of enclosing blocks, with columns
counted in tab stops of four. A tab that is only partly used up leaves padding. -/
namespace LosslessTree.Markdown

/-- White space in the sense of block structure. -/
def isSpace (b : UInt8) : Bool := b == 0x20 || (0x09 ≤ b && b ≤ 0x0D)

def isBlankText (s : Bytes) : Bool := s.all isSpace

def trimLeft (s : Bytes) : Bytes := Bytes.trimLeft isSpace s
def trimRight (s : Bytes) : Bytes := Bytes.trimRight isSpace s

/-- The columns from `column` to the next tab stop. -/
def tabWidth (column : Nat) : Nat := 4 - column % 4

def indentFrom (column width length : Nat) : Bytes → Nat × Nat
  | [] => (width, length)
  | b :: rest =>
    if b == Bytes.space then indentFrom column (width + 1) (length + 1) rest
    else if b == Bytes.tab then
      indentFrom column (width + tabWidth (column + width)) (length + 1) rest
    else (width, length)

/-- The width of the indentation at `column` and the number of its bytes. -/
def indent (s : Bytes) (column : Nat) : Nat × Nat := indentFrom column 0 0 s

def indentUpTo (column target width length : Nat) : Bytes → Nat × Nat
  | [] => (width, length)
  | b :: rest =>
    if target ≤ width then (width, length)
    else if b == Bytes.tab then
      indentUpTo column target (width + tabWidth (column + width)) (length + 1) rest
    else if b == Bytes.space then indentUpTo column target (width + 1) (length + 1) rest
    else (width, length)

/-- How many bytes make up `target` columns of indentation, and the columns of the last tab that are
left over. -/
def indentPosition? (s : Bytes) (column target : Nat) : Option (Nat × Nat) :=
  let (width, length) := indentUpTo column target 0 0 s
  if target ≤ width then some (length, width - target) else none

/-- The text in lines, each with its line feed. -/
def splitLines : Bytes → List Bytes
  | [] => []
  | b :: rest =>
    if b == Bytes.newline then [b] :: splitLines rest
    else match splitLines rest with
      | [] => [[b]]
      | line :: lines => (b :: line) :: lines

/-- What is left of a line. -/
structure LineView where
  /-- Where the line starts in the source. -/
  start : Nat
  bytes : Bytes
  consumed : Nat := 0
  /-- Columns of a used tab that still count as spaces. -/
  padding : Nat := 0

namespace LineView

def rest (v : LineView) : Bytes :=
  List.replicate v.padding Bytes.space ++ v.bytes.drop v.consumed

def segment (v : LineView) : Segment := ⟨v.start + v.consumed, v.start + v.bytes.length⟩

def columnFrom (column : Nat) : Bytes → Nat
  | [] => column
  | b :: rest => columnFrom (column + if b == Bytes.tab then tabWidth column else 1) rest

/-- The column at which the rest of the line starts. -/
def column (v : LineView) : Nat := columnFrom 0 (v.bytes.take v.consumed) - v.padding

/-- Uses up `n` bytes, those of the padding first. -/
def advance (v : LineView) (n : Nat) : LineView :=
  let padded := min n v.padding
  { v with
    padding := v.padding - padded
    consumed := min (v.consumed + (n - padded)) v.bytes.length }

def advanceWith (v : LineView) (n padding : Nat) : LineView :=
  let v := v.advance n
  { v with padding := max v.padding padding }

/-- Uses up everything but the line feed. -/
def toEnd (v : LineView) : LineView :=
  { v with
    padding := 0
    consumed := if v.bytes.getLast? == some Bytes.newline then v.bytes.length - 1
      else v.bytes.length }

/-- The rest of the line without the white space before its text. -/
def trimmed (v : LineView) : Segment :=
  let s := v.bytes.drop v.consumed
  ⟨v.start + v.consumed + (s.length - (trimLeft s).length), v.start + v.bytes.length⟩

end LineView
end LosslessTree.Markdown
