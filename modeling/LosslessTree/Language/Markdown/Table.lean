import LosslessTree.Language.Markdown.Line

/-! Tables: a row of cells, a delimiter row with as many columns, and further rows, at the end of a
paragraph. -/
namespace LosslessTree.Markdown.Table

/-- Whether a column of the delimiter row is dashes with an optional colon at either end. -/
def isDelimiter (column : Bytes) : Bool :=
  let s := trimRight (trimLeft column)
  let s := if s.head? == some 0x3A then s.drop 1 else s
  let s := if s.getLast? == some 0x3A then s.dropLast else s
  !s.isEmpty && s.all (· == 0x2D)

/-- The number of columns of a delimiter row. -/
def columns? (line : Bytes) : Option Nat :=
  if 3 < (indent line 0).1 ∨
      !line.all (fun b => isSpace b || b == 0x2D || b == 0x7C || b == 0x3A) ∨
      line.all (· == 0x2D) then none
  else
    let columns := Bytes.split 0x7C line
    let columns := if isBlankText (columns.headD []) then columns.tail else columns
    let columns := if columns.getLast?.any isBlankText then columns.dropLast else columns
    if columns.isEmpty ∨ !columns.all isDelimiter then none else some columns.length

/-- The length of a cell: up to a bar that is not escaped. -/
def cellLength (before : Option UInt8) (length : Nat) : Bytes → Nat
  | [] => length
  | b :: rest =>
    if b == 0x7C && before != some 0x5C then length
    else cellLength (some b) (length + 1) rest

/-- A segment without the white space around its text. -/
def trimSegment (src : Bytes) (s : Segment) : Segment :=
  let text := s.text src
  let start := s.start + (text.length - (trimLeft text).length)
  ⟨start, start + (trimRight (trimLeft text)).length⟩

/-- The cells of `text`, which starts at `start`; at most `limit` of them, if there is a limit. -/
def cells (src : Bytes) (limit : Option Nat) (before : Option UInt8) (start : Nat) (text : Bytes)
    (fuel : Nat) : List Segment :=
  match fuel with
  | 0 => []
  | fuel + 1 =>
    if text.isEmpty ∨ limit = some 0 then []
    else
      let n := cellLength before 0 text
      trimSegment src ⟨start, start + n⟩ ::
        cells src (limit.map (· - 1)) (some 0x7C) (start + n + 1) (text.drop (n + 1)) fuel

/-- The cells of a row. A header may have more cells than there are columns. -/
def rowCells (src : Bytes) (columns : Nat) (isHeader : Bool) (row : Segment) : List Segment :=
  let row := trimSegment src row
  let text := row.text src
  let leading := text.head? == some 0x7C
  let closed := text.getLast? == some 0x7C
  let inside := if closed then text.dropLast else text
  cells src (if isHeader then none else some columns) (if leading then some 0x7C else none)
    (if leading then row.start + 1 else row.start) (if leading then inside.drop 1 else inside)
    (text.length + 1)

def rowBlock (cells : List Segment) : Block :=
  .container .tableRow (cells.map fun s => .leaf .tableCell [s])

/-- The lines before a table and the table, if the paragraph has one. -/
def find (src : Bytes) (before : List Segment) : List Segment → Option (List Segment × Block)
  | header :: delimiter :: rows =>
    match columns? (delimiter.text src) with
    | none => find src (before ++ [header]) (delimiter :: rows)
    | some columns =>
      let head := rowCells src columns true header
      if columns < head.length then none
      else some (before, .container .table
        (rowBlock head :: rows.map fun row => rowBlock (rowCells src columns false row)))
  | _ => none

/-- Cuts a table off the end of a paragraph; the line break before it goes with it. -/
def cut (src : Bytes) (lines : List Segment) : Option (List Segment × Block) :=
  (find src [] lines).map fun (before, table) =>
    (match before.getLast? with
      | none => []
      | some last => before.dropLast ++ [⟨last.start, last.stop - 1⟩], table)

end LosslessTree.Markdown.Table
