import LosslessTree.Language.Feed
import LosslessTree.Language.Markdown.BlockParser
import LosslessTree.Language.Markdown.Token

/-! Markdown trees. Every token goes into the tree in order; the block structure only says where nodes
open and close, always at whole lines. Whatever the blocks are, no token is lost or moved. -/
namespace LosslessTree.Markdown

/-- The start of the line that holds position `i`: after the last line feed before it. -/
def lineStart (src : Bytes) (i : Nat) : Nat :=
  i - ((src.take i).reverse.takeWhile (· != Bytes.newline)).length

/-- The first line end at or after position `i`. -/
def lineEnd (src : Bytes) (i : Nat) : Nat :=
  i + ((src.drop i).takeWhile (!isEol ·)).length

/-- A range of source positions. -/
structure Extent where
  start : Nat
  stop : Nat
  deriving DecidableEq, Repr

namespace Extent

/-- The least extent around two, either of which may be missing. -/
def join : Option Extent → Option Extent → Option Extent
  | none, b => b
  | a, none => a
  | some a, some b => some ⟨min a.start b.start, max a.stop b.stop⟩

def ofSegments (segments : List Segment) : Option Extent :=
  segments.foldl (fun e s => join e (some ⟨s.start, s.stop⟩)) none

/-- Steps back over a byte before `stop`, but not past the start. -/
def without (src : Bytes) (b : UInt8) (e : Extent) : Extent :=
  if e.start < e.stop ∧ src[e.stop - 1]? = some b then { e with stop := e.stop - 1 } else e

/-- Widens to whole lines, without the last line break. -/
def lineAligned (src : Bytes) (e : Extent) : Extent :=
  let e : Extent := { e with start := lineStart src e.start }
  let e := (e.without src Bytes.newline).without src Bytes.carriageReturn
  { e with stop := lineEnd src e.stop }

end Extent

def isFenceLine (line : Bytes) : Bool :=
  let s := line.dropWhile (· == Bytes.space)
  Bytes.startsWith s [0x60, 0x60, 0x60] || Bytes.startsWith s "~~~"

/-- Widens the extent of a fenced block to the fences around its lines. -/
def withFences (src : Bytes) (info : Option Segment) (e : Extent) : Extent :=
  let start := if info.isNone && 0 < e.start then lineStart src (e.start - 1) else e.start
  let next := if src[e.stop]? = some Bytes.carriageReturn then e.stop + 1 else e.stop
  let next := if src[next]? = some Bytes.newline then next + 1 else next
  if e.stop < next && isFenceLine (src.drop next) then ⟨start, lineEnd src next⟩
  else ⟨start, e.stop⟩

/-- A block with the extent of its node; blocks without an extent or a node are passed over. -/
inductive Outline where
  | node (symbol : Option Symbol) (extent : Option Extent) (children : List Outline)

namespace Outline

def extent : Outline → Option Extent
  | node _ e _ => e

mutual
/-- Measures a block: the least extent around its segments and those below it, in whole lines. -/
def ofBlock (src : Bytes) : Block → Outline
  | .mk kind lines info inlines children =>
    let below := ofBlocks src children
    let own := Extent.join (Extent.ofSegments lines)
      (Extent.join (Extent.ofSegments (if kind = .fencedCode then info.toList else []))
        (Extent.ofSegments (inlines.filter (!·.isEmpty))))
    let full := below.foldl (fun e o => Extent.join e o.extent) own
    let measured := full.map fun e =>
      let e := e.lineAligned src
      if kind = .fencedCode then withFences src info e else e
    .node kind.symbol? (if kind = .document then none else measured) below
def ofBlocks (src : Bytes) : List Block → List Outline
  | [] => []
  | b :: bs => ofBlock src b :: ofBlocks src bs
end

end Outline

/-- The tokens not yet in the tree. -/
structure Writer where
  rest : List Span
  builder : Builder
  cancellation : Cancellation
  /-- How many tokens went in. -/
  fed : Nat := 0
  cancelled : Bool := false

namespace Writer

def hasTokenBefore (w : Writer) (offset : Nat) : Bool :=
  w.rest.head?.any fun span => span.start < offset

/-- Feeds the tokens at the start of `ahead`, those not yet fed, that begin before `offset`. The first
token and every 256th after it are preceded by a check for cancellation. -/
def feed (offset : Nat) (ahead : List Span) (w : Writer) : Writer :=
  match ahead with
  | [] => w
  | span :: ahead =>
    if w.cancelled || offset ≤ span.start then w
    else
      let checks := w.fed % checkInterval == 0
      let due := checks && w.cancellation.isDue
      let w := { w with
        cancellation := if checks then w.cancellation.next else w.cancellation
        cancelled := due }
      if due then w
      else feed offset ahead { w with
        rest := ahead
        builder := w.builder.token span.symbol.kind span.text
        fed := w.fed + 1 }

def feedUntil (w : Writer) (offset : Nat) : Writer := w.feed offset w.rest

mutual
/-- Writes a block: its node around the tokens of its extent, if any is left there. -/
def block (w : Writer) : Outline → Writer
  | .node (some symbol) (some e) children =>
    let w := w.feedUntil e.start
    if w.hasTokenBefore e.stop then
      let w := blocks { w with builder := w.builder.start symbol.kind } children
      let w := w.feedUntil e.stop
      { w with builder := w.builder.finishNode }
    else w
  | .node _ _ children => blocks w children
def blocks (w : Writer) : List Outline → Writer
  | [] => w
  | o :: os => blocks (block w o) os
end

end Writer

/-- The tree of a text over a given block structure. -/
def build (src : Bytes) (document : Block) (cache : Cache) (cancellation : Cancellation) : Parsed :=
  let w : Writer :=
    { rest := tokenize src
      builder := Builder.start { cache := cache } Symbol.document.kind
      cancellation := cancellation }
  let w := (w.block (Outline.ofBlock src document)).feedUntil src.length
  let (root, builder) := w.builder.finishNode.finish
  { result :=
      if w.cancelled then .error (.cancelled "markdown")
      else match root with
        | .error e => .error (.build "markdown" e)
        | .ok tree => .ok tree
    cache := builder.cache
    cancellation := w.cancellation }

/-- Parses a text; cancellation is looked at before and after its blocks are found. -/
def parse (tables : Bool) (src : Bytes) (cache : Cache) (cancellation : Cancellation) : Parsed :=
  let second := cancellation.next
  if cancellation.isDue then ⟨.error (.cancelled "markdown"), cache, second⟩
  else if second.isDue then ⟨.error (.cancelled "markdown"), cache, second.next⟩
  else build src (blocks src tables) cache second.next

end LosslessTree.Markdown
