import LosslessTree.Bytes.Utf8

/-! JSON values to be written. Object members keep their order. -/
namespace LosslessTree

inductive Json where
  | bool (b : Bool)
  /-- A number by its text. -/
  | number (text : Bytes)
  | string (text : Bytes)
  | array (items : List Json)
  | object (members : List (Bytes × Json))

namespace Json

def ofNat (n : Nat) : Json := .number (Bytes.ofNat n)
def ofInt (n : Int) : Json := .number (Bytes.ofInt n)

/-- How a glyph is written in a string. Besides quotes, backslashes and control characters, what could
end a script or an HTML text is escaped, and an invalid byte is written as U+FFFD. -/
def escapeGlyph (g : Glyph) : Bytes :=
  if g.isInvalid then Utf8.encode Glyph.replacement
  else match g.point with
    | 0x22 => "\\\""
    | 0x5C => "\\\\"
    | 0x08 => "\\b"
    | 0x0C => "\\f"
    | 0x0A => "\\n"
    | 0x0D => "\\r"
    | 0x09 => "\\t"
    | p =>
      if p < 0x20 || p == 0x3C || p == 0x3E || p == 0x26 || p == 0x2028 || p == 0x2029 then
        "\\u" ++ Bytes.hex 4 p
      else g.bytes

/-- The text between quotes. -/
def quote (text : Bytes) : Bytes := 0x22 :: ((Utf8.decode text).flatMap escapeGlyph ++ [0x22])

mutual

/-- The value with the members of every object in the order of their keys. -/
def sorted : Json → Json
  | .array items => .array (sortedItems items)
  | .object members => .object ((sortedMembers members).mergeSort fun a b => Bytes.le a.1 b.1)
  | v => v

def sortedItems : List Json → List Json
  | [] => []
  | v :: rest => sorted v :: sortedItems rest

def sortedMembers : List (Bytes × Json) → List (Bytes × Json)
  | [] => []
  | (key, v) :: rest => (key, sorted v) :: sortedMembers rest

end

end Json
end LosslessTree
