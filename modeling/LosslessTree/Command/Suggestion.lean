import LosslessTree.Command.Catalog
import LosslessTree.Text.Path

/-! Suggestions for a name that no command has: names that start with it, or that few changes of single
bytes turn it into. -/
namespace LosslessTree.Command

namespace Suggestion

/-- The distances of a text to the starts of another one, from the `distances` of the text without its last
byte. `last` is the distance found for the start before, `diagonal` the one that a changed byte adds to. -/
def nextRow (b : UInt8) (last diagonal : Nat) : Bytes → List Nat → List Nat
  | c :: cs, above :: distances =>
    let here := if b == c then diagonal else 1 + min (min above last) diagonal
    here :: nextRow b here above cs distances
  | _, _ => []

/-- How many bytes have to be added, dropped or changed to make one text of the other. -/
def distance (a b : Bytes) : Nat :=
  let row := a.zipIdx.foldl (fun row (c, i) => (i + 1) :: nextRow c (i + 1) i b (row.drop 1))
    (List.range (b.length + 1))
  row.getLast?.getD 0

def maxDistance : Nat := 2

def isNear (word : Bytes) (s : Spec) : Bool :=
  let word := Path.lower word
  let name := Path.lower s.name
  distance word name ≤ maxDistance || Bytes.startsWith name word

/-- The commands below another one that a word may have meant. -/
def forWord (s : Spec) (word : Bytes) : List Spec :=
  s.children.filter fun c => c.action != some .help && isNear word c

/-- What is said of the commands that may have been meant. -/
def text : List Spec → Bytes
  | [] => []
  | found =>
    Bytes.ofString "\n\nDid you mean this?\n" ++
      found.flatMap fun s => 0x09 :: (Bytes.ofString s.name ++ [0x0A])

end Suggestion
end LosslessTree.Command
