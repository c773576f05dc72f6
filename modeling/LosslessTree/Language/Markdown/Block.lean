import LosslessTree.Language.Markdown.Symbol

/-! The block structure of a Markdown text: which blocks there are, how they nest, and which parts of
the text they hold. -/
namespace LosslessTree.Markdown

/-- A piece of the source. -/
structure Segment where
  start : Nat
  stop : Nat
  deriving DecidableEq, Repr

namespace Segment

def isEmpty (s : Segment) : Bool := s.stop ≤ s.start

def text (src : Bytes) (s : Segment) : Bytes := (src.drop s.start).take (s.stop - s.start)

end Segment

inductive BlockKind where
  | document | heading | paragraph | blockquote | list | listItem | codeBlock | fencedCode | htmlBlock
  | table | tableRow | tableCell | thematicBreak
  deriving DecidableEq, Repr

/-- The node that a block becomes; rows, cells and thematic breaks become none. -/
def BlockKind.symbol? : BlockKind → Option Symbol
  | .heading => some .heading
  | .paragraph => some .paragraph
  | .blockquote => some .blockquote
  | .list => some .list
  | .listItem => some .listItem
  | .codeBlock => some .codeBlock
  | .fencedCode => some .fencedCode
  | .htmlBlock => some .htmlBlock
  | .table => some .table
  | .document | .tableRow | .tableCell | .thematicBreak => none

/-- A block with the segments of its lines, of the info string after a code fence, and of the inline
text and raw HTML in it. -/
inductive Block where
  | mk (kind : BlockKind) (lines : List Segment) (info : Option Segment) (inlines : List Segment)
    (children : List Block)

namespace Block

def kind : Block → BlockKind
  | mk k _ _ _ _ => k

def leaf (kind : BlockKind) (lines : List Segment) : Block := mk kind lines none [] []

def container (kind : BlockKind) (children : List Block) : Block := mk kind [] none [] children

end Block
end LosslessTree.Markdown
