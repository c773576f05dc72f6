import LosslessTree.Language.Markdown.OpenBlock

/-! Finding the block structure of a text line by line. For each line the open blocks say in turn
whether they go on; where one does not, new blocks may open in its place, or the line may still
belong to an open paragraph. -/
namespace LosslessTree.Markdown

/-- What a line leaves for later ones to know. -/
structure Notes where
  /-- An empty list item was followed by a blank line. -/
  emptyItem : Bool := false
  /-- The marker ahead continues a list and opens none. -/
  skipList : Bool := false

/-- Whether an open block takes the line, and what is left of the line. -/
inductive Continuation where
  | go (b : OpenBlock) (v : LineView)
  | stop (v : LineView)

/-- The line after a blockquote marker. -/
def afterQuoteMarker? (v : LineView) : Option LineView :=
  let line := v.rest
  let (width, length) := indent line v.column
  if 3 < width then none
  else match line.drop length with
    | 0x3E :: after =>
      let v := v.advance (length + 1)
      match after with
      | b :: _ =>
        if b == Bytes.tab then some (v.advanceWith 1 (tabWidth v.column - 1))
        else if b == Bytes.space then some (v.advance 1)
        else some v
      | [] => some v
    | _ => none

/-- Whether an item follows the last one of a list, or the list goes on inside that item. -/
def continueList (marker : UInt8) (ordered : Bool) (notes : Notes) (inner : List OpenBlock)
    (v : LineView) : Bool × Notes :=
  let line := v.rest
  let item := inner.head?
  let offset := match item.map OpenBlock.shape with
    | some (.item offset) => offset
    | _ => 0
  let lastIsEmpty := inner.length ≤ 1 && item.all fun item => item.children.isEmpty
  if isBlankText line then (true, { notes with emptyItem := notes.emptyItem || lastIsEmpty })
  else
    let width := (indent line v.column).1
    let goesOn := !(lastIsEmpty && width < offset) && !notes.emptyItem
    if width < offset || lastIsEmpty then
      match if width < 4 then ListMarker.ofLine? line else none with
      | some m =>
        if m.indent < offset + 4 then
          let tail := line.drop (m.stop - 1)
          let isUnderline := inner.getLast?.any (fun b => b.shape == .paragraph) &&
            setextMark? tail == some 0x2D
          (m.marker == marker && m.ordered == ordered &&
            !(isThematicBreak tail 0 && !isUnderline), notes)
        else (lastIsEmpty && goesOn, notes)
      | none => (lastIsEmpty && goesOn, notes)
    else (goesOn, notes)

/-- The line after the indentation of an item, if it belongs to the item. -/
def continueItem (offset : Nat) (b : OpenBlock) (notes : Notes) (inner : List OpenBlock)
    (v : LineView) : Option LineView × Notes :=
  let line := v.rest
  if isBlankText line then (some v.toEnd, notes)
  else
    let isEmpty := b.children.isEmpty && inner.isEmpty && notes.emptyItem
    let width := (indent line v.column).1
    let content := match indentPosition? line v.column offset with
      | some (n, padding) => v.advanceWith n padding
      | none => v
    if (isEmpty || width < offset) && width < 4 then
      if (ListMarker.ofLine? line).isSome then (none, { notes with skipList := true })
      else if isEmpty then (some content, notes)
      else (none, notes)
    else (some content, notes)

def continueFence (mark : UInt8) (length : Nat) (b : OpenBlock) (v : LineView) : Continuation :=
  let line := v.rest
  let (width, n) := indent line v.column
  let run := count (· == mark) (line.drop n)
  if width < 4 && length ≤ run && isBlankText (line.drop (n + run)) then .stop v.toEnd
  else .go { b with lines := b.lines ++ [v.segment] } v.toEnd

def continueHtml (src : BlockSource) (start : HtmlStart) (b : OpenBlock) (v : LineView) :
    Continuation :=
  let line := v.rest
  match b.lines with
  | [first] =>
    if !start.endsAtBlank && start.isClosedBy (first.text src.text) then .stop v
    else if start.isClosedBy line then .stop (if start.endsAtBlank then v else v.toEnd)
    else .go { b with lines := b.lines ++ [v.segment] } v.toEnd
  | _ =>
    if start.isClosedBy line then .stop (if start.endsAtBlank then v else v.toEnd)
    else .go { b with lines := b.lines ++ [v.segment] } v.toEnd

/-- Whether an open block takes the line; `inner` are the open blocks within it. -/
def continueBlock (src : BlockSource) (notes : Notes) (b : OpenBlock) (inner : List OpenBlock)
    (v : LineView) : Continuation × Notes :=
  match b.shape with
  | .blockquote =>
    match afterQuoteMarker? v with
    | some v => (.go b v, notes)
    | none => (.stop v, notes)
  | .list marker ordered =>
    match continueList marker ordered notes inner v with
    | (true, notes) => (.go b v, notes)
    | (false, notes) => (.stop v, notes)
  | .item offset =>
    match continueItem offset b notes inner v with
    | (some v, notes) => (.go b v, notes)
    | (none, notes) => (.stop v, notes)
  | .indented =>
    if isBlankText v.rest || 4 ≤ (indent v.rest v.column).1 then
      (.go { b with lines := b.lines ++ [v.segment] } v.toEnd, notes)
    else (.stop v, notes)
  | .fence mark length => (continueFence mark length b v, notes)
  | .html start => (continueHtml src start b v, notes)
  | .paragraph | .heading | .thematicBreak => (.stop v, notes)

/-- Where blocks are about to open. -/
structure Place where
  /-- The parent is a list whose last item has this offset. -/
  parentList : Option Nat := none
  /-- The open paragraph directly below the parent. -/
  paragraph : Option OpenBlock := none
  /-- The innermost open block is a paragraph, perhaps in a deeper block. -/
  afterParagraph : Bool := false
  /-- The innermost open block is a list. -/
  afterList : Bool := false

/-- What an attempt to open a block at a line came to. -/
inductive Attempt where
  /-- A block, the rest of the line, and whether that may open blocks within it. -/
  | opened (b : OpenBlock) (v : LineView) (more : Bool)
  /-- The line underlines the open paragraph. -/
  | underline
  | nothing

def attemptHeading (line : Bytes) (pos : Nat) (v : LineView) : Attempt :=
  let level := count (· == 0x23) (line.drop pos)
  let after := line.drop (pos + level)
  if line.length ≤ pos ∨ level = 0 ∨ 6 < level then .nothing
  else if after.isEmpty then .opened { shape := .heading } v false
  else
    let blanks := after.length - (trimLeft after).length
    if blanks = 0 then .nothing
    else
      let first := min (pos + level + blanks) (line.length - 1)
      let stop := (trimRight line).length
      let stop :=
        if stop ≤ first then first
        else
          let text := (line.take stop).drop first
          let kept := Bytes.trimRight (· == 0x23) text
          let before := (line.take (first + kept.length)).getLast?
          if kept.length < text.length ∧ before.any isSpace then first + kept.length else stop
      let text := Bytes.trimRight (· == 0x23) ((line.take stop).drop first)
      .opened
        { shape := .heading
          lines :=
            if text.isEmpty then []
            else [⟨v.segment.start + first - v.padding, v.segment.start + stop - v.padding⟩] } v false

def attemptFence (line : Bytes) (pos : Nat) (v : LineView) : Attempt :=
  match line.drop pos with
  | [] => .nothing
  | mark :: _ =>
    let length := count (· == mark) (line.drop pos)
    let after := line.drop (pos + length)
    let info := trimRight (trimLeft after)
    if length < 3 then .nothing
    else if after.length ≤ 1 ∨ info.isEmpty then .opened { shape := .fence mark length } v false
    else if mark == 0x60 && info.contains 0x60 then .nothing
    else
      let stop := v.start + v.bytes.length - (after.length - (trimRight after).length)
      .opened { shape := .fence mark length, info := some ⟨stop - info.length, stop⟩ } v false

def attemptList (place : Place) (notes : Notes) (line : Bytes) (v : LineView) : Attempt × Notes :=
  if place.afterList || notes.skipList then (.nothing, { notes with skipList := false })
  else match ListMarker.ofLine? line with
    | none => (.nothing, notes)
    | some m =>
      if place.paragraph.isSome && ((m.ordered && m.number != 1) || m.isEmpty) then (.nothing, notes)
      else
        (.opened { shape := .list m.marker m.ordered } v true, { notes with emptyItem := false })

def attemptItem (place : Place) (notes : Notes) (line : Bytes) (v : LineView) : Attempt × Notes :=
  match place.parentList, ListMarker.ofLine? line with
  | some offset, some m =>
    if offset + 3 < m.indent then (.nothing, notes)
    else
      let notes := { notes with emptyItem := false }
      let item : OpenBlock := { shape := .item (m.stop + m.contentOffset) }
      if m.isEmpty then (.opened item v false, notes)
      else match indentPosition? m.after m.stop m.contentOffset with
        | some (n, padding) => (.opened item (v.advanceWith (m.stop + n) padding) true, notes)
        | none => (.opened item v true, notes)
  | _, _ => (.nothing, notes)

/-- A list, or an item where the parent is one. -/
def attemptListOrItem (place : Place) (notes : Notes) (line : Bytes) (v : LineView) :
    Attempt × Notes :=
  match attemptList place notes line v with
  | (.nothing, notes) => attemptItem place notes line v
  | found => found

/-- The block that the first byte after the indentation may introduce. -/
def attemptMarked (place : Place) (notes : Notes) (v : LineView) (line : Bytes) (width pos : Nat) :
    Attempt × Notes :=
  let reached := width < line.length
  match (line.drop pos).head? with
  | none => (.nothing, notes)
  | some b =>
    if (b == 0x3D || b == 0x2D) && place.paragraph.isSome && (setextMark? line).isSome then
      (.underline, notes)
    else if (b == 0x2D || b == 0x2A || b == 0x5F) && isThematicBreak line v.column then
      (.opened { shape := .thematicBreak } v.toEnd false, notes)
    else if b == 0x2D || b == 0x2A || b == 0x2B || Bytes.isDigit b then
      attemptListOrItem place notes line v
    else if b == 0x23 && reached then (attemptHeading line pos v, notes)
    else if (b == 0x60 || b == 0x7E) && reached then (attemptFence line pos v, notes)
    else if b == 0x3E then
      match afterQuoteMarker? v with
      | some v => (.opened { shape := .blockquote } v true, notes)
      | none => (.nothing, notes)
    else if b == 0x3C && reached then
      match HtmlStart.ofLine? line place.afterParagraph with
      | some start =>
        (.opened { shape := .html start, lines := [v.segment] } v.toEnd false, notes)
      | none => (.nothing, notes)
    else (.nothing, notes)

/-- Blocks that a line opened, outermost first. -/
structure Opening where
  opened : List OpenBlock := []
  notes : Notes
  /-- The blocks that the open paragraph became, if the line ended it. -/
  settled : Option (List Block) := none

/-- Opens as many nested blocks as the line asks for. -/
def openBlocks (src : BlockSource) (fuel : Nat) (place : Place) (o : Opening) (v : LineView) :
    Opening :=
  match fuel with
  | 0 => o
  | fuel + 1 =>
    let line := v.rest
    let (width, pos) := indent line v.column
    let interrupts := place.afterParagraph && o.opened.isEmpty
    if line.head?.all (· == Bytes.newline) then o
    else if 3 < width then
      if interrupts || isBlankText line then o
      else { o with opened := o.opened ++ [{ shape := .indented, lines := [v.segment] }] }
    else match attemptMarked place o.notes v line width pos with
      | (.opened b v more, notes) =>
        let o := { o with opened := o.opened ++ [b], notes := notes }
        if more then
          openBlocks src fuel
            { parentList := if b.shape.isList then some 0 else none, afterList := b.shape.isList } o v
        else o
      | (.underline, notes) =>
        let lines := (place.paragraph.map OpenBlock.lines).getD []
        let settled := settle src (trimLastLine src.text lines)
        let o := { o with notes := notes, settled := some settled.after }
        match settled.lines with
        | some lines => { o with opened := [{ shape := .heading, lines := lines }] }
        | none => openBlocks src fuel {} o v
      | (.nothing, notes) =>
        let o := { o with notes := notes }
        if interrupts || v.trimmed.isEmpty then o
        else { o with opened := o.opened ++ [{ shape := .paragraph, lines := [v.trimmed] }] }

structure BlockState where
  /-- Open blocks, outermost first. -/
  opened : List OpenBlock := []
  /-- The blocks of the document that are closed. -/
  closed : List Block := []
  notes : Notes := {}

namespace BlockState

/-- Adds closed blocks to the innermost block of a chain, or to the document. -/
def attach (chain : List OpenBlock) (closed blocks : List Block) : List OpenBlock × List Block :=
  match chain.getLast? with
  | none => ([], closed ++ blocks)
  | some b => (chain.dropLast ++ [{ b with children := b.children ++ blocks }], closed)

/-- The line reaches `todo`, the open blocks that do not simply go on below `outer`. -/
def resume (src : BlockSource) (closed : List Block) (notes : Notes) (outer todo : List OpenBlock)
    (v : LineView) : BlockState :=
  let last := todo.getLast?
  let afterParagraph := last.any fun b => b.shape == .paragraph
  let place : Place :=
    { parentList := match outer.getLast?.map OpenBlock.shape, todo.head?.map OpenBlock.shape with
        | some (.list ..), some (.item offset) => some offset
        | _, _ => none
      paragraph := match todo with
        | [b] => if b.shape == .paragraph then some b else none
        | _ => none
      afterParagraph := afterParagraph }
  let o := openBlocks src (v.bytes.length + 2) place { notes := notes } v
  match o.settled, last with
  | some blocks, _ =>
    let (outer, closed) := attach outer closed blocks
    { opened := outer ++ o.opened, closed := closed, notes := o.notes }
  | none, some paragraph =>
    if o.opened.isEmpty && afterParagraph && !isBlankText v.rest then
      { opened := outer ++ todo.dropLast ++
          [{ paragraph with lines := paragraph.lines ++ [v.trimmed] }]
        closed := closed
        notes := o.notes }
    else
      let (outer, closed) := attach outer closed (OpenBlock.closeAll src todo)
      { opened := outer ++ o.opened, closed := closed, notes := o.notes }
  | none, none => { opened := outer ++ o.opened, closed := closed, notes := o.notes }

/-- Asks the open blocks in turn whether they go on; `outer` already did. -/
def walk (src : BlockSource) (closed : List Block) (notes : Notes) (outer : List OpenBlock)
    (v : LineView) : List OpenBlock → BlockState
  | [] => resume src closed notes outer [] v
  | b :: inner =>
    if b.shape == .paragraph then resume src closed notes outer (b :: inner) v
    else match continueBlock src notes b inner v with
      | (.stop v, notes) => resume src closed notes outer (b :: inner) v
      | (.go b v, notes) =>
        if inner.isEmpty && !b.shape.isContainer then
          { opened := outer ++ [b], closed := closed, notes := notes }
        else walk src closed notes (outer ++ [b]) v inner

def line (src : BlockSource) (s : BlockState) (v : LineView) : BlockState :=
  walk src s.closed s.notes [] v s.opened

def lines (src : BlockSource) (s : BlockState) (start : Nat) : List Bytes → BlockState
  | [] => s
  | bytes :: rest =>
    lines src (s.line src { start := start, bytes := bytes }) (start + bytes.length) rest

end BlockState

/-- The block structure of a text. -/
def blocks (text : Bytes) (tables : Bool) : Block :=
  let src : BlockSource := ⟨text, tables⟩
  let s := BlockState.lines src {} 0 (splitLines text)
  .container .document (BlockState.attach [] s.closed (OpenBlock.closeAll src s.opened)).2

end LosslessTree.Markdown
