import LosslessTree.Language.Markdown.HtmlStart
import LosslessTree.Language.Markdown.LinkDefinition
import LosslessTree.Language.Markdown.Table

/-! Blocks that are still open while the lines of a text go by, and what becomes of them when they are
closed. -/
namespace LosslessTree.Markdown

inductive Shape where
  | blockquote
  | list (marker : UInt8) (ordered : Bool)
  /-- An item whose content starts `offset` columns in. -/
  | item (offset : Nat)
  | paragraph
  | heading
  | thematicBreak
  | indented
  | fence (mark : UInt8) (length : Nat)
  | html (start : HtmlStart)
  deriving DecidableEq, Repr

namespace Shape

def isContainer : Shape → Bool
  | blockquote | list .. | item _ => true
  | _ => false

def isList : Shape → Bool
  | list .. => true
  | _ => false

def kind : Shape → BlockKind
  | blockquote => .blockquote
  | list .. => .list
  | item _ => .listItem
  | paragraph => .paragraph
  | heading => .heading
  | thematicBreak => .thematicBreak
  | indented => .codeBlock
  | fence .. => .fencedCode
  | html _ => .htmlBlock

end Shape

structure OpenBlock where
  shape : Shape
  lines : List Segment := []
  info : Option Segment := none
  /-- The children that are closed already. -/
  children : List Block := []

/-- What is being parsed: the text, and whether it may hold tables. -/
structure BlockSource where
  text : Bytes
  tables : Bool

/-- What an ended paragraph became: the lines it keeps, if any, and the blocks after it. -/
structure Settled where
  lines : Option (List Segment)
  after : List Block

/-- Takes link definitions and a table out of a paragraph. -/
def settle (src : BlockSource) (lines : List Segment) : Settled :=
  match LinkDefinition.strip src.text lines with
  | [] => ⟨none, [.leaf .paragraph []]⟩
  | lines =>
    match if src.tables then Table.cut src.text lines else none with
    | none => ⟨some lines, []⟩
    | some ([], table) => ⟨none, [table]⟩
    | some (before, table) => ⟨some before, [table]⟩

/-- Drops the white space at the end of a segment. -/
def trimSegmentRight (src : Bytes) (s : Segment) : Segment :=
  ⟨s.start, s.start + (trimRight (s.text src)).length⟩

/-- Drops the white space at the end of the last line. -/
def trimLastLine (src : Bytes) (lines : List Segment) : List Segment :=
  match lines.getLast? with
  | none => []
  | some last => lines.dropLast ++ [trimSegmentRight src last]

namespace OpenBlock

/-- The blocks that an open block becomes, given what its open child became. -/
def close (src : BlockSource) (b : OpenBlock) (inner : List Block) : List Block :=
  match b.shape with
  | .paragraph =>
    let settled := settle src b.lines
    (match settled.lines with
      | some lines => [.leaf .paragraph (trimLastLine src.text lines)]
      | none => []) ++ settled.after
  | .indented =>
    [.leaf .codeBlock
      (b.lines.reverse.dropWhile fun s => isBlankText (s.text src.text)).reverse]
  | shape => [.mk shape.kind b.lines b.info [] (b.children ++ inner)]

/-- Closes a chain of nested open blocks, outermost first. -/
def closeAll (src : BlockSource) : List OpenBlock → List Block
  | [] => []
  | b :: inner => b.close src (closeAll src inner)

end OpenBlock

/-- A list marker at the start of a line. -/
structure ListMarker where
  /-- Spaces before the marker. -/
  indent : Nat
  /-- Where the marker ends. -/
  stop : Nat
  marker : UInt8
  ordered : Bool
  number : Nat
  /-- The rest of the line. -/
  after : Bytes

namespace ListMarker

def ofLine? (line : Bytes) : Option ListMarker :=
  let spaces := count (· == Bytes.space) line
  let s := line.drop spaces
  let digits := s.takeWhile Bytes.isDigit
  let found : Option (Nat × Bool) :=
    match s with
    | [] => none
    | b :: _ =>
      if b == 0x2D || b == 0x2A || b == 0x2B then some (1, false)
      else if digits.isEmpty ∨ 9 < digits.length then none
      else match s.drop digits.length with
        | mark :: _ => if mark == 0x2E || mark == 0x29 then some (digits.length + 1, true) else none
        | [] => none
  match found with
  | none => none
  | some (length, ordered) =>
    let after := s.drop length
    if 3 < spaces ∨ after.head?.any (fun b => b != Bytes.newline && !isBlank b) then none
    else some
      { indent := spaces
        stop := spaces + length
        marker := (s.drop (length - 1)).headD 0
        ordered := ordered
        number := digits.foldl (fun n b => n * 10 + (b - 0x30).toNat) 0
        after := after }

def isEmpty (m : ListMarker) : Bool := isBlankText m.after

/-- How far behind the marker the content of the item starts. -/
def contentOffset (m : ListMarker) : Nat :=
  if m.isEmpty then 1
  else
    let width := (Markdown.indent m.after m.stop).1
    if 4 < width then 1 else width

end ListMarker

/-- At least three `*`, `-` or `_`, all the same, with white space between them only. -/
def isThematicBreak (line : Bytes) (column : Nat) : Bool :=
  let marks := line.filter (!isSpace ·)
  match marks with
  | b :: _ =>
    (indent line column).1 ≤ 3 && (b == 0x2A || b == 0x2D || b == 0x5F) && marks.all (· == b) &&
      3 ≤ marks.length
  | [] => false

/-- The mark of a heading underline. -/
def setextMark? (line : Bytes) : Option UInt8 :=
  let spaces := count (· == Bytes.space) line
  let s := trimRight (line.drop spaces)
  match s with
  | b :: _ =>
    if spaces ≤ 3 ∧ (b == 0x3D || b == 0x2D) ∧ s.all (· == b) then some b else none
  | [] => none

end LosslessTree.Markdown
