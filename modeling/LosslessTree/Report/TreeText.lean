import LosslessTree.Report.Format
import LosslessTree.Runner.Measure
import LosslessTree.Text.Range

/-! Trees as indented lines. A node whose children are left out ends in an ellipsis. -/
namespace LosslessTree.Report

def kindStyle (theme : Theme) (name : String) (isToken : Bool) : Style :=
  if name == TreeStats.errorName then theme.errorKind
  else if isToken then theme.tokenKind else theme.nodeKind

/-- What comes before the text of a token and the end of a node's line. -/
def elementHead (o : Options) (names : KindNames) (depth offset : Nat) (t : Tree) : Bytes :=
  let name := names.name t.kind
  Bytes.times depth "  " ++ (kindStyle o.theme name t.isToken).render name ++
    if o.offsets then o.theme.range.render ("@" ++ (TextRange.ofOffset offset t.length).render)
    else []

def tokenText (o : Options) (text : Bytes) : Bytes :=
  let shown := match o.textWidth? with
    | some width => Cells.truncate text width
    | none => text
  0x20 :: o.theme.text.render (Quoted.encode shown)

def cutMark (o : Options) : Bytes := o.theme.dim.render " …"

mutual

/-- The lines of an element that stands at some depth and starts at `offset`. -/
def treeLines (o : Options) (names : KindNames) (depth offset : Nat) : Tree → List Bytes
  | .token k text =>
    [elementHead o names depth offset (.token k text) ++ tokenText o text ++ [Bytes.newline]]
  | .node k cs =>
    let head := elementHead o names depth offset (.node k cs)
    if !cs.isEmpty && o.cutsBelow depth then [head ++ cutMark o ++ [Bytes.newline]]
    else (head ++ [Bytes.newline]) :: treeLinesAll o names (depth + 1) offset cs

def treeLinesAll (o : Options) (names : KindNames) (depth offset : Nat) : List Tree → List Bytes
  | [] => []
  | c :: cs =>
    treeLines o names depth offset c ++ treeLinesAll o names depth (offset + c.length) cs

end

def treeText (o : Options) (names : KindNames) (t : Tree) : Bytes :=
  (treeLines o names 0 0 t).flatten

end LosslessTree.Report
