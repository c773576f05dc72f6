import LosslessTree.Text.Cells

/-! Styled text. A style colours every line by itself, so that a pager or a table may cut between
lines. -/
namespace LosslessTree

inductive Color where
  | white | gray | red | green | yellow | blue | cyan
  deriving DecidableEq, Repr

/-- The number of a color in select-graphic-rendition sequences. -/
def Color.code : Color → Nat
  | .white => 37
  | .gray => 90
  | .red => 91
  | .green => 92
  | .yellow => 93
  | .blue => 94
  | .cyan => 96

structure Style where
  bold : Bool := false
  color : Option Color := none
  deriving DecidableEq, Repr

namespace Style

def plain : Style := {}

def codes (s : Style) : List Bytes :=
  (if s.bold then [Bytes.ofNat 1] else []) ++ (s.color.map fun c => Bytes.ofNat c.code).toList

/-- The start of a control sequence. -/
def escape : Bytes := [0x1B, 0x5B]

def reset : Bytes := escape ++ "0m"

def expandTab (b : UInt8) : Bytes := if b == Bytes.tab then List.replicate 4 Bytes.space else [b]

/-- Line breaks are line feeds. -/
def normalizeBreaks : Bytes → Bytes
  | 0x0D :: 0x0A :: rest => 0x0A :: normalizeBreaks rest
  | b :: rest => b :: normalizeBreaks rest
  | [] => []

/-- Shorter lines are filled up to the widest one, after their style has ended. -/
def renderLines (start : Bytes) (lines : List Bytes) : Bytes :=
  let widest := (lines.map Cells.width).foldl max 0
  Bytes.join [Bytes.newline] (lines.map fun line =>
    start ++ line ++ reset ++ Cells.spaces (widest - Cells.width line))

def render (s : Style) (text : Bytes) : Bytes :=
  let text := text.flatMap expandTab
  match s.codes with
  | [] => text
  | codes =>
    renderLines (escape ++ Bytes.join ";" codes ++ "m")
      (Bytes.split Bytes.newline (normalizeBreaks text))

end Style

/-- How far output may be coloured. -/
inductive ColorMode where
  | automatic | always | never
  deriving DecidableEq, Repr

namespace ColorMode

/-- Anything but the two fixed words leaves the choice to the terminal. -/
def ofText (text : Bytes) : ColorMode :=
  if text = Bytes.ofString "always" then .always
  else if text = Bytes.ofString "never" then .never
  else .automatic

/-- Output that goes to no terminal is coloured on demand only. -/
def isEnabled (m : ColorMode) : Bool := m == .always

end ColorMode

/-- The styles of everything that is printed. -/
structure Theme where
  nodeKind : Style := {}
  tokenKind : Style := {}
  errorKind : Style := {}
  range : Style := {}
  text : Style := {}
  filePath : Style := {}
  error : Style := {}
  warning : Style := {}
  success : Style := {}
  failure : Style := {}
  title : Style := {}
  tableHeader : Style := {}
  tableRule : Style := {}
  failedRow : Style := {}
  dim : Style := {}
  strong : Style := {}
  deriving DecidableEq, Repr

namespace Theme

def plain : Theme := {}

def colored : Theme where
  nodeKind := { bold := true, color := some .blue }
  tokenKind := { color := some .cyan }
  errorKind := { bold := true, color := some .red }
  range := { color := some .gray }
  text := { color := some .green }
  filePath := { bold := true }
  error := { bold := true, color := some .red }
  warning := { bold := true, color := some .yellow }
  success := { bold := true, color := some .green }
  failure := { bold := true, color := some .red }
  title := { bold := true }
  tableHeader := { bold := true, color := some .white }
  tableRule := { color := some .gray }
  failedRow := { color := some .red }
  dim := { color := some .gray }
  strong := { bold := true }

def ofMode (m : ColorMode) : Theme := if m.isEnabled then colored else plain

end Theme
end LosslessTree
