import LosslessTree.Text.Path

/-! Patterns for paths: `*` stands for any run of glyphs, slashes included, `?` for one glyph, and a
backslash takes the meaning from the glyph after it. -/
namespace LosslessTree.Glob

inductive Item where
  | run | one
  | exactly (point : Nat)
  /-- What nothing matches. -/
  | never
  deriving DecidableEq, Repr

/-- The items of a pattern. A backslash at the very end stands for itself after a run, and matches
nothing in a pattern without runs. -/
def items (afterRun : Bool) : List Nat → List Item
  | [] => []
  | [0x5C] => if afterRun then [.exactly 0x5C] else [.never]
  | 0x5C :: p :: rest => .exactly p :: items afterRun rest
  | 0x2A :: rest => .run :: items true rest
  | 0x3F :: rest => .one :: items afterRun rest
  | p :: rest => .exactly p :: items afterRun rest

def points (text : Bytes) : List Nat := (Utf8.decode text).map Glyph.point

/-- For each end of the text, the whole one first, whether some end of it is marked. -/
def marksBelow : List Bool → List Bool
  | [] => []
  | b :: rest =>
    let below := marksBelow rest
    (b || below.headD false) :: below

/-- Which ends of a text match a pattern, the whole text first, given which of them match the pattern
without its first item. -/
def marks (text : List Nat) (item : Item) (rest : List Bool) : List Bool :=
  match item with
  | .run => marksBelow rest
  | .one => rest.tail ++ [false]
  | .exactly p => List.zipWith (fun c b => c == p && b) text rest.tail ++ [false]
  | .never => rest.map fun _ => false

/-- Whether the whole text matches. -/
def matchesItems (pattern : List Item) (text : List Nat) : Bool :=
  (pattern.foldr (marks text) (text.map (fun _ => false) ++ [true])).headD false

/-- Whether a text matches a pattern. -/
def accepts (pattern text : Bytes) : Bool :=
  matchesItems (items false (points pattern)) (points text)

def anythingBelow : Bytes := "/**"
def anywhere : Bytes := "**/"

/-- Whether a pattern selects a relative path: as a whole, by its last component, as a directory whose
contents are meant, or at the top although any depth is meant. -/
def selects (path pattern : Bytes) : Bool :=
  let base := (path.reverse.takeWhile (· != Path.separator)).reverse
  accepts pattern path || accepts pattern base ||
    (Bytes.endsWith pattern anythingBelow &&
      accepts (pattern.take (pattern.length - anythingBelow.length)) path) ||
    (Bytes.startsWith pattern anywhere && accepts (pattern.drop anywhere.length) path)

def anySelects (patterns : List Bytes) (path : Bytes) : Bool := patterns.any (selects path)

end LosslessTree.Glob
