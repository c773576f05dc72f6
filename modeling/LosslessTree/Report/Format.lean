import LosslessTree.Report.Style
import LosslessTree.Text.Path
import LosslessTree.Text.Quoted

/-! What a report looks like. -/
namespace LosslessTree.Report

inductive Format where
  | text | json | stats | summary
  deriving DecidableEq, Repr

namespace Format

def name : Format → String
  | .text => "text"
  | .json => "json"
  | .stats => "stats"
  | .summary => "summary"

def all : List Format := [.text, .json, .stats, .summary]

def ofName? (name : Bytes) : Option Format := all.find? fun f => Bytes.ofString f.name == name

/-- The format of that name; an empty name stands for text. -/
def ofNameOrText? (name : Bytes) : Option Format := if name.isEmpty then some .text else ofName? name

def unknownMessage (name : Bytes) : Bytes :=
  "unknown format " ++ Quoted.encode name ++ "; valid formats: text, json, stats, summary"

def unsupportedMessage (name : Bytes) : Bytes := "unsupported format: " ++ name

end Format

structure Options where
  format : Format := .text
  color : ColorMode := .automatic
  /-- Whether elements show their range. -/
  offsets : Bool := false
  /-- How many levels of a tree are shown, if positive. -/
  maxDepth : Int := 0
  /-- How many cells of a token's text are shown: zero stands for the default, less for all. -/
  maxTextWidth : Int := 0
  summary : Bool := false
  compact : Bool := false
  /-- Paths below this directory are shown relative to it. -/
  workingDir : Bytes := []
  deriving Repr

namespace Options

def defaultTextWidth : Int := 60

/-- How many cells of a token's text are shown, if there is a limit. -/
def textWidth? (o : Options) : Option Int :=
  if o.maxTextWidth = 0 then some defaultTextWidth
  else if o.maxTextWidth < 0 then none
  else some o.maxTextWidth

/-- Whether the children of a node at some depth are left out. -/
def cutsBelow (o : Options) (depth : Nat) : Bool := 0 < o.maxDepth && o.maxDepth ≤ depth + 1

def theme (o : Options) : Theme := .ofMode o.color

/-- The path to show for a file. -/
def displayPath (o : Options) (path : Bytes) : Bytes :=
  if o.workingDir.isEmpty ∨ !Path.isAbsolute path ∨ !Path.isAbsolute o.workingDir then path
  else
    let relative := Path.relativeTo o.workingDir path
    if relative = [0x2E, 0x2E] ∨ Bytes.startsWith relative [0x2E, 0x2E, 0x2F] then path
    else relative

end Options
end LosslessTree.Report
