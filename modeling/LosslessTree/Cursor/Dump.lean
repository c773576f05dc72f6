import LosslessTree.Cursor.Basic
import LosslessTree.Text.Quoted

/-! The debug dump: one line per element, indented by depth, with kind, range and token text. -/
namespace LosslessTree.Cursor

def dumpLine (names : KindNames) (c : Cursor) (depth : Nat) : Bytes :=
  Bytes.times depth "  " ++ names.name c.kind ++ "@" ++ c.range.render ++
    (match c.tree with
      | .token _ text => 0x20 :: Quoted.encode text
      | .node .. => []) ++ [Bytes.newline]

def dump (names : KindNames) (c : Cursor) : Bytes :=
  c.walk.flatMap fun (place, depth) => dumpLine names place depth

/-- The short form `N:KIND@start..stop` of a node or `T:KIND@start..stop` of a token. -/
def short (names : KindNames) (c : Cursor) : Bytes :=
  (if c.isNode then "N:" else "T:") ++ names.name c.kind ++ "@" ++ c.range.render

end LosslessTree.Cursor
