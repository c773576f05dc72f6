import LosslessTree.Report.Style
import LosslessTree.Runner.Outcome

/-! The table of files: one row per file and a row of totals. Columns are as wide as their content;
where the terminal is too narrow, paths lose their start. -/
namespace LosslessTree.Report

structure TableRow where
  file : Bytes
  /-- One cell per column after the file. -/
  cells : List Bytes
  failed : Bool := false

def columnNames : List String := ["LANG", "BYTES", "NODES", "TOKENS", "DEPTH", "ERRORS", "TIME"]

def headerRow : TableRow := { file := "FILE", cells := columnNames.map Bytes.ofString }

def columnGap : Nat := 2

def leastFileWidth : Nat := 12

/-- The width of an output that is no terminal. -/
def defaultWidth : Nat := 100

namespace TableRow

def counts (bytes nodes tokens depth errors : Nat) (time : Nanoseconds) : List Bytes :=
  [bytes, nodes, tokens, depth, errors].map Bytes.ofNat ++ [Duration.timing time]

def ofOutcome (path : Bytes) (o : FileOutcome) : TableRow :=
  let language := (o.language.map Language.name).getD "-"
  match o.result with
  | .error _ =>
    { file := path
      cells := [language, "failed"] ++ List.replicate (columnNames.length - 2) [0x2D]
      failed := true }
  | .ok _ =>
    let s := o.stats
    { file := path
      cells := language :: counts s.bytes s.nodes s.tokens s.depth s.errorNodes o.duration }

def ofTotals (s : RunStats) : TableRow where
  file := "TOTAL (" ++ Bytes.ofNat s.parsed ++ " parsed)"
  cells := [] :: counts s.bytes s.nodes s.tokens s.maxDepth s.errorNodes s.duration

end TableRow

structure ColumnWidths where
  file : Nat
  cells : List Nat

namespace ColumnWidths

def total (w : ColumnWidths) : Nat := w.file + columnGap + (w.cells.map (· + columnGap)).foldl (· + ·) 0

/-- The widths that hold every row. -/
def natural (rows : List TableRow) : ColumnWidths :=
  rows.foldl
    (fun w row =>
      { file := max w.file (Cells.width row.file)
        cells := List.zipWith (fun n cell => max n (Cells.width cell)) w.cells row.cells })
    { file := leastFileWidth, cells := headerRow.cells.map Cells.width }

/-- Takes what is too much for the terminal from the files. -/
def shrink (w : ColumnWidths) (terminal : Nat) : ColumnWidths :=
  { w with file := max leastFileWidth (w.file - (w.total - terminal)) }

end ColumnWidths

/-- The language is left aligned, the numbers are right aligned. -/
def tableLine (w : ColumnWidths) (row : TableRow) : Bytes :=
  let gap := Cells.spaces columnGap
  let padded := match row.cells.zip w.cells with
    | [] => []
    | (language, n) :: numbers =>
      gap ++ Cells.padRight language n ++
        numbers.flatMap fun (cell, n) => gap ++ Cells.padLeft cell n
  Bytes.trimRight (· == Bytes.space)
    (0x20 :: Cells.padRight (Cells.truncateLeft row.file w.file) w.file ++ padded)

/-- The table of a result; the paths are the ones to show. A terminal width of zero or less stands for
the default. -/
def table (theme : Theme) (terminal : Int) (rows : List TableRow) (s : RunStats) : Bytes :=
  if rows.isEmpty then []
  else
    let totals := TableRow.ofTotals s
    let terminal := if terminal ≤ 0 then defaultWidth else terminal.toNat
    let w := (ColumnWidths.natural (rows ++ [totals])).shrink terminal
    let rule (mark : UInt8) : Bytes := theme.tableRule.render (List.replicate w.total mark) ++ "\n"
    let body : Bytes := rows.flatMap fun row =>
      let line := tableLine w row
      (if row.failed then theme.failedRow.render line else line) ++ [Bytes.newline]
    theme.tableHeader.render (tableLine w headerRow) ++ "\n" ++ rule 0x3D ++ body ++ rule 0x2D ++
      theme.strong.render (tableLine w totals) ++ "\n" ++ rule 0x3D

end LosslessTree.Report
