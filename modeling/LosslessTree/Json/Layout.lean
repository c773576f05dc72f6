import LosslessTree.Json.Basic

/-! Laying out JSON: on one line, or over several lines with two spaces per level, where an array
without objects stays on one line if it fits. A layout is a list of pieces, which are then written
plainly or in color. -/
namespace LosslessTree.Json

inductive Piece where
  | bracket (b : UInt8)
  /-- A colon or comma of an object. -/
  | punctuation (b : UInt8)
  /-- White space and the commas of arrays. -/
  | filler (text : Bytes)
  | key (quoted : Bytes)
  | string (quoted : Bytes)
  | number (text : Bytes)
  | word (text : Bytes)

namespace Piece

def text : Piece → Bytes
  | .bracket b | .punctuation b => [b]
  | .filler t | .key t | .string t | .number t | .word t => t

end Piece

def wordOf (b : Bool) : Bytes := if b then "true" else "false"

mutual

/-- Everything on one line; `gap` follows the commas of arrays. -/
def line (gap : Bytes) : Json → List Piece
  | .bool b => [.word (wordOf b)]
  | .number t => [.number t]
  | .string t => [.string (quote t)]
  | .array items => .bracket 0x5B :: (lineItems gap true items ++ [.bracket 0x5D])
  | .object members => .bracket 0x7B :: (lineMembers gap true members ++ [.bracket 0x7D])

def lineItems (gap : Bytes) (first : Bool) : List Json → List Piece
  | [] => []
  | v :: rest =>
    (if first then [] else [.filler (0x2C :: gap)]) ++ line gap v ++ lineItems gap false rest

def lineMembers (gap : Bytes) (first : Bool) : List (Bytes × Json) → List Piece
  | [] => []
  | (key, v) :: rest =>
    (if first then [] else [.punctuation 0x2C]) ++ .key (quote key) :: .punctuation 0x3A ::
      line gap v ++ lineMembers gap false rest

end

mutual

def hasObject : Json → Bool
  | .array items => anyHasObject items
  | .object _ => true
  | _ => false

def anyHasObject : List Json → Bool
  | [] => false
  | v :: rest => hasObject v || anyHasObject rest

end

def lengthOf (pieces : List Piece) : Nat := (pieces.map fun p => p.text.length).foldl (· + ·) 0

/-- A new line at some depth. -/
def newlineAt (depth : Nat) : Piece := .filler (0x0A :: List.replicate (2 * depth) 0x20)

/-- The position after the indentation of a line, counting the line break before it. -/
def columnAt (depth : Nat) : Nat := 1 + 2 * depth

/-- Whether an array may stand on one line that already reaches to `column`. -/
def fitsLine (width column : Nat) (items : List Json) : Bool :=
  let room := width - column
  3 < room && !anyHasObject items &&
    lengthOf (line [0x20] (.array items)) ≤ room

mutual

/-- One member or item per line. Lines of arrays are at most `width` long; a width of zero keeps every
array over several lines. -/
def block (width depth column : Nat) : Json → List Piece
  | .bool b => [.word (wordOf b)]
  | .number t => [.number t]
  | .string t => [.string (quote t)]
  | .array [] => [.bracket 0x5B, .bracket 0x5D]
  | .object [] => [.bracket 0x7B, .bracket 0x7D]
  | .array (v :: rest) =>
    if fitsLine width column (v :: rest) then line [0x20] (.array (v :: rest))
    else
      .bracket 0x5B :: newlineAt (depth + 1) ::
        (block width (depth + 1) (columnAt (depth + 1)) v ++ blockItems width (depth + 1) rest ++
          [newlineAt depth, .bracket 0x5D])
  | .object ((key, v) :: rest) =>
    let key := quote key
    .bracket 0x7B :: newlineAt (depth + 1) :: .key key :: .punctuation 0x3A :: .filler [0x20] ::
      (block width (depth + 1) (columnAt (depth + 1) + key.length + 2) v ++
        blockMembers width (depth + 1) rest ++ [newlineAt depth, .bracket 0x7D])

def blockItems (width depth : Nat) : List Json → List Piece
  | [] => []
  | v :: rest =>
    .filler [0x2C] :: newlineAt depth ::
      (block width depth (columnAt depth) v ++ blockItems width depth rest)

def blockMembers (width depth : Nat) : List (Bytes × Json) → List Piece
  | [] => []
  | (key, v) :: rest =>
    let key := quote key
    .punctuation 0x2C :: newlineAt depth :: .key key :: .punctuation 0x3A :: .filler [0x20] ::
      (block width depth (columnAt depth + key.length + 2) v ++ blockMembers width depth rest)

end

def newline : Piece := .filler [0x0A]

def compact (v : Json) : List Piece := line [] v ++ [newline]

def pretty (width : Nat) (v : Json) : List Piece := block width 0 0 v ++ [newline]

/-- The width of lines. -/
def defaultWidth : Nat := 80

/-- The plain text of a layout. -/
def plain (pieces : List Piece) : Bytes := pieces.flatMap Piece.text

namespace Colored

def off : Bytes := "\x1b[0m"
def bold : Bytes := "\x1b[1m"
def keyOn : Bytes := "\x1b[1m\x1b[94m"
def stringOn : Bytes := "\x1b[32m"
def numberOn : Bytes := "\x1b[33m"
def wordOn : Bytes := "\x1b[36m"
def escapeOn : Bytes := "\x1b[35m"

/-- The rest of a quoted text that is written in the color `on`. A backslash starts an escape, which
takes one more byte, or five after `\u`; `left` bytes of it are still to come. -/
def quotedRest (on : Bytes) (left : Nat) : Bytes → Bytes
  | [] => off
  | b :: rest =>
    if b == 0x5C then
      off ++ escapeOn ++ b :: quotedRest on (if rest.head? == some 0x75 then 5 else 1) rest
    else if left == 0 then b :: quotedRest on 0 rest
    else if left == 1 then b :: (off ++ on ++ quotedRest on 0 rest)
    else b :: quotedRest on (left - 1) rest

def quoted (on text : Bytes) : Bytes :=
  match text with
  | [] => []
  | b :: rest => on ++ b :: quotedRest on 0 rest

def piece : Piece → Bytes
  | .bracket b | .punctuation b => bold ++ b :: off
  | .filler t => t
  | .key t => quoted keyOn t
  | .string t => quoted stringOn t
  | .number t => numberOn ++ t ++ off
  | .word t => wordOn ++ t ++ off

end Colored

def colored (pieces : List Piece) : Bytes := pieces.flatMap Colored.piece

end LosslessTree.Json
