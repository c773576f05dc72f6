import LosslessTree.Json.Basic
import LosslessTree.Report.Format
import LosslessTree.Text.Range
import LosslessTree.Tree.Basic

/-! Outlines: trees with names and ranges spelled out, as they appear in JSON reports. -/
namespace LosslessTree.Report

inductive Outline where
  | token (name : String) (range : TextRange) (text : Bytes)
  | node (name : String) (range : TextRange) (children : List Outline)
  /-- A node whose children are left out. -/
  | cut (name : String) (range : TextRange)

mutual

def outline (o : Options) (names : KindNames) (depth offset : Nat) : Tree → Outline
  | .token k text => .token (names.name k) (.ofOffset offset text.length) text
  | .node k cs =>
    let range := TextRange.ofOffset offset (Tree.lengthAll cs)
    if !cs.isEmpty && o.cutsBelow depth then .cut (names.name k) range
    else .node (names.name k) range (outlineAll o names (depth + 1) offset cs)

def outlineAll (o : Options) (names : KindNames) (depth offset : Nat) : List Tree → List Outline
  | [] => []
  | c :: cs =>
    outline o names depth offset c :: outlineAll o names depth (offset + c.length) cs

end

namespace Outline

/-- An element's kind and, if asked for, its range, followed by what else it has. -/
def members (offsets : Bool) (name : String) (range : TextRange) (rest : List (Bytes × Json)) : Json :=
  .object (("kind", .string name) ::
    if offsets then ("start", .ofInt range.start) :: ("end", .ofInt range.stop) :: rest else rest)

mutual

def toJson (offsets : Bool) : Outline → Json
  | .token name range text => members offsets name range [("text", .string text)]
  | .cut name range => members offsets name range [("truncated", .bool true)]
  | .node name range [] => members offsets name range []
  | .node name range (c :: cs) =>
    members offsets name range [("children", .array (toJson offsets c :: toJsonAll offsets cs))]

def toJsonAll (offsets : Bool) : List Outline → List Json
  | [] => []
  | c :: cs => toJson offsets c :: toJsonAll offsets cs

end

end Outline
end LosslessTree.Report
