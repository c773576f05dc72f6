import LosslessTree.Bytes.Utf8
import LosslessTree.Text.Path
import LosslessTree.Text.Quoted
import LosslessTree.Unicode.Ranges

/-! How much is logged. -/
namespace LosslessTree

inductive LogLevel where
  | debug | info | warn | error
  deriving DecidableEq, Repr

namespace LogLevel

def name : LogLevel → String
  | .debug => "debug"
  | .info => "info"
  | .warn => "warn"
  | .error => "error"

def all : List LogLevel := [.debug, .info, .warn, .error]

def rank : LogLevel → Nat
  | .debug => 0
  | .info => 1
  | .warn => 2
  | .error => 3

/-- The level of a name in any case; an unknown name stands for `info`. -/
def ofText (text : Bytes) : LogLevel :=
  let text := Path.lower text
  if text = Bytes.ofString "warning" then .warn
  else (all.find? fun l => Bytes.ofString l.name == text).getD .info

/-- Whether a message of level `message` is let through by a logger of this level. -/
def shows (l message : LogLevel) : Bool := l.rank ≤ message.rank

end LogLevel
/-! Log lines: a level, a message, and fields with values. A value is quoted where it would not read as one
word; a value of several lines stands below the message, a mark before each line. -/

structure LogField where
  key : String
  value : Bytes
  deriving DecidableEq, Repr

namespace LogField

def ofBool (key : String) (b : Bool) : LogField := ⟨key, if b then "true" else "false"⟩

def ofList (key : String) (items : List Bytes) : LogField :=
  ⟨key, [0x5B] ++ Bytes.join [0x20] items ++ [0x5D]⟩

/-- Whether a glyph makes a value more than one plain word. -/
def needsQuotes (g : Glyph) : Bool :=
  g.point == 0x22 || g.point == 0x3D || g.point == Glyph.replacement || Unicode.isSpace g.point ||
    !Unicode.isPrintable g.point

def needsEscape (g : Glyph) : Bool := g.point == 0x22 || !Unicode.isPrintable g.point

def escapeGlyph (escapesQuotes : Bool) (g : Glyph) : Bytes :=
  if escapesQuotes && g.point == 0x22 then "\\\""
  else if Unicode.isPrintable g.point then Utf8.encode g.point
  else match Quoted.escapeLetter? g.point with
    | some letter => [0x5C, letter]
    | none =>
      if g.point < 0x20 then "\\x" ++ Bytes.hex 2 g.point
      else if g.point < 0x10000 then "\\u" ++ Bytes.hex 4 g.point
      else "\\U" ++ Bytes.hex 8 g.point

/-- A text with nothing to escape stays as it is, invalid bytes included. -/
def escape (escapesQuotes : Bool) (text : Bytes) : Bytes :=
  let glyphs := Utf8.decode text
  if glyphs.any needsEscape then glyphs.flatMap (escapeGlyph escapesQuotes) else text

/-- What stands before each line of a value. -/
def lineMark : Bytes := "  │ "

/-- The lines of a value, each behind its mark; an empty one at the end is left out. -/
def markedLines (isLast : Bool) : List Bytes → Bytes
  | [] => []
  | [line] => if line.isEmpty then [] else lineMark ++ escape false line ++ if isLast then [] else [0x0A]
  | line :: rest => lineMark ++ escape false line ++ [0x0A] ++ markedLines isLast rest

def text (f : LogField) (isLast : Bool) : Bytes :=
  let key : Bytes := Bytes.ofString f.key ++ [0x3D]
  if f.value.isEmpty then [0x20] ++ key ++ [0x22, 0x22]
  else if f.value.contains Bytes.newline then
    "\n  " ++ key ++ "\n" ++ markedLines isLast (Bytes.split Bytes.newline f.value)
  else if (Utf8.decode f.value).any needsQuotes then
    [0x20] ++ key ++ [0x22] ++ escape true f.value ++ [0x22]
  else [0x20] ++ key ++ f.value

def texts : List LogField → Bytes
  | [] => []
  | f :: rest => f.text rest.isEmpty ++ texts rest

end LogField

/-- The mark of a level in a log. -/
def LogLevel.mark : LogLevel → String
  | .debug => "DEBU"
  | .info => "INFO"
  | .warn => "WARN"
  | .error => "ERRO"

structure Logger where
  level : LogLevel := .info
  /-- What stands before every message, if anything. -/
  name : String := ""
  deriving DecidableEq, Repr

namespace Logger

/-- A tab in a message takes four blanks. -/
def expandTabs (message : Bytes) : Bytes :=
  message.flatMap fun b => if b == Bytes.tab then List.replicate 4 Bytes.space else [b]

/-- The line of a message; nothing if its level is not let through. -/
def line (l : Logger) (level : LogLevel) (message : Bytes) (fields : List LogField) : Bytes :=
  if l.level.shows level then
    let name : Bytes := if l.name.isEmpty then [] else " " ++ Bytes.ofString l.name ++ ":"
    Bytes.ofString level.mark ++ name ++ " " ++ expandTabs message ++ LogField.texts fields ++ "\n"
  else []

end Logger
end LosslessTree
