import LosslessTree.Bytes.Utf8
import LosslessTree.Unicode.Grapheme
import LosslessTree.Unicode.Wide

/-! Text on a terminal. A text is cut into grapheme clusters, each of which takes a number of cells;
cutting and padding to a width never split a cluster. -/
namespace LosslessTree

open Unicode (GraphemeClass)

/-- What the glyphs read so far say about the next boundary. -/
inductive ClusterState where
  | other | carriageReturn | control | leading | openSyllable | closedSyllable | prepended
  | pictographic | pictographicJoiner | regionalOdd | regionalEven
  deriving DecidableEq, Repr

namespace ClusterState

/-- The state after a glyph that the state before it says nothing special about. -/
def ofClass : GraphemeClass → ClusterState
  | .carriageReturn => .carriageReturn
  | .lineFeed | .control => .control
  | .leading => .leading
  | .vowel | .openSyllable => .openSyllable
  | .trailing | .closedSyllable => .closedSyllable
  | .prepended => .prepended
  | .pictographic => .pictographic
  | .regional => .regionalOdd
  | .other | .extend | .joiner | .spacingMark => .other

def next : ClusterState → GraphemeClass → ClusterState
  | .pictographic, .extend => .pictographic
  | .pictographic, .joiner => .pictographicJoiner
  | .regionalOdd, .regional => .regionalEven
  | _, c => ofClass c

/-- Whether a glyph of the given class belongs to the cluster before it. -/
def joins : ClusterState → GraphemeClass → Bool
  | .carriageReturn, c => c == .lineFeed
  | .control, _ => false
  | _, .carriageReturn | _, .lineFeed | _, .control => false
  | _, .extend | _, .joiner | _, .spacingMark => true
  | .prepended, _ => true
  | .leading, c => c == .leading || c == .vowel || c == .openSyllable || c == .closedSyllable
  | .openSyllable, c => c == .vowel || c == .trailing
  | .closedSyllable, c => c == .trailing
  | .pictographicJoiner, c => c == .pictographic
  | .regionalOdd, c => c == .regional
  | _, _ => false

end ClusterState

structure Cluster where
  bytes : Bytes
  /-- The cells it takes. -/
  width : Nat
  deriving DecidableEq, Repr

namespace Cluster

/-- The cells of a glyph on its own. -/
def glyphWidth (point : Nat) (c : GraphemeClass) : Nat :=
  match c with
  | .control | .carriageReturn | .lineFeed | .extend | .joiner => 0
  | .regional => 2
  | .pictographic => if Unicode.isEmoji point then 2 else 1
  | _ =>
    if point == 0x2E3A then 3
    else if point == 0x2E3B then 4
    else if Unicode.isWide point then 2 else 1

/-- Selects the text form of a pictograph. -/
def textSelector : Nat := 0xFE0E
/-- Selects the emoji form of a pictograph. -/
def emojiSelector : Nat := 0xFE0F

/-- The cells of a cluster that started with a glyph of class `first` and goes on with another one. -/
def extendedWidth (first : GraphemeClass) (width point : Nat) (c : GraphemeClass) : Nat :=
  match first with
  | .pictographic =>
    if point == textSelector then 1 else if point == emojiSelector then 2 else width
  | .regional | .leading => width
  | _ => width + glyphWidth point c

/-- The clusters of the glyphs that follow `taken`, the bytes of an unfinished cluster in reverse. -/
def following (state : ClusterState) (first : GraphemeClass) (taken : Bytes) (width : Nat) :
    List Glyph → List Cluster
  | [] => [⟨taken.reverse, width⟩]
  | g :: rest =>
    let c := Unicode.graphemeClass g.point
    if state.joins c then
      following (state.next c) first (g.bytes.reverse ++ taken)
        (extendedWidth first width g.point c) rest
    else
      ⟨taken.reverse, width⟩ ::
        following (state.next c) c g.bytes.reverse (glyphWidth g.point c) rest

def ofGlyphs : List Glyph → List Cluster
  | [] => []
  | g :: rest =>
    let c := Unicode.graphemeClass g.point
    following (.ofClass c) c g.bytes.reverse (glyphWidth g.point c) rest

end Cluster

namespace Cells

def clusters (text : Bytes) : List Cluster := Cluster.ofGlyphs (Utf8.decode text)

def total (cs : List Cluster) : Nat := (cs.map Cluster.width).foldl (· + ·) 0

/-- The cells a text takes. -/
def width (text : Bytes) : Nat := total (clusters text)

def ellipsis : Bytes := "…"

/-- The longest start that fits into the given cells. -/
def fitting (room : Nat) : List Cluster → List Cluster
  | [] => []
  | c :: rest => if c.width ≤ room then c :: fitting (room - c.width) rest else []

def concat (cs : List Cluster) : Bytes := cs.flatMap Cluster.bytes

/-- The text cut to a width; an ellipsis stands for what was cut off the end. -/
def truncate (text : Bytes) (limit : Int) : Bytes :=
  if limit ≤ 0 then []
  else if width text ≤ limit.toNat then text
  else concat (fitting (limit.toNat - 1) (clusters text)) ++ ellipsis

/-- The text cut to a width; an ellipsis stands for what was cut off the start. -/
def truncateLeft (text : Bytes) (limit : Int) : Bytes :=
  if limit ≤ 0 then []
  else if width text ≤ limit.toNat then text
  else ellipsis ++ concat (fitting (limit.toNat - 1) (clusters text).reverse).reverse

def spaces (n : Nat) : Bytes := List.replicate n Bytes.space

def padRight (text : Bytes) (room : Int) : Bytes := text ++ spaces (room - width text).toNat

def padLeft (text : Bytes) (room : Int) : Bytes := spaces (room - width text).toNat ++ text

end Cells
end LosslessTree
