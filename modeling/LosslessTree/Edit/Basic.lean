import LosslessTree.Text.Quoted
import LosslessTree.Text.Range

/-! Text edits: which batches make sense, and what they do to a plain text. -/
namespace LosslessTree

/-- Puts `text` in the place of a range. -/
structure TextEdit where
  range : TextRange
  text : Bytes
  deriving DecidableEq, Repr

namespace TextEdit

def render (e : TextEdit) : Bytes := e.range.render ++ " " ++ Quoted.encode e.text

end TextEdit

inductive EditError where
  | negativeStart (range : TextRange)
  | inverted (range : TextRange)
  | tooLong (range : TextRange) (length : Nat)
  | overlap (first second : TextRange)
  | spansTokens (range : TextRange)
  | noToken (offset : Int)
  | tokenChanged (text : Bytes) (range : TextRange)
  deriving DecidableEq, Repr

namespace EditError

def message : EditError → Bytes
  | .negativeStart r => "invalid edit " ++ r.render ++ ": start offset is negative"
  | .inverted r => "invalid edit " ++ r.render ++ ": end offset is before start offset"
  | .tooLong r length =>
    "invalid edit " ++ r.render ++ ": end offset " ++ Bytes.ofInt r.stop ++ " exceeds text length " ++
      Bytes.ofNat length
  | .overlap a b => "overlapping edits: " ++ a.render ++ " and " ++ b.render
  | .spansTokens r => "edit spans more than one token: " ++ r.render
  | .noToken offset => "edit spans more than one token: no token at " ++ Bytes.ofInt offset
  | .tokenChanged text r =>
    "edit changes token kind or boundaries: " ++ Quoted.encode text ++ " at " ++ r.render

end EditError

namespace TextEdit

/-- What is wrong with an edit of a text of so many bytes. -/
def problem? (length : Nat) (e : TextEdit) : Option EditError :=
  if e.range.start < 0 then some (.negativeStart e.range)
  else if e.range.stop < e.range.start then some (.inverted e.range)
  else if length < e.range.stop then some (.tooLong e.range length)
  else none

/-- Checks the edits in order. -/
def validate (edits : List TextEdit) (length : Nat) : Except EditError Unit :=
  match edits.findSome? (problem? length) with
  | some e => .error e
  | none => .ok ()

/-- Order by start, then by end. -/
def le (a b : TextEdit) : Bool :=
  a.range.start < b.range.start || (a.range.start == b.range.start && a.range.stop ≤ b.range.stop)

/-- The first two neighbours that overlap or start at one offset. -/
def conflict? : List TextEdit → Option EditError
  | a :: b :: rest =>
    if b.range.start < a.range.stop ∨ b.range.start = a.range.start then
      some (.overlap a.range b.range)
    else conflict? (b :: rest)
  | _ => none

/-- Sorts a batch whose edits are valid and do not conflict. -/
def prepare (edits : List TextEdit) (length : Nat) : Except EditError (List TextEdit) :=
  match validate edits length with
  | .error e => .error e
  | .ok () =>
    let sorted := edits.mergeSort le
    match conflict? sorted with
    | some e => .error e
    | none => .ok sorted

/-- Copies the text from `cursor` on, with sorted edits put in. -/
def splice (content : Bytes) (cursor : Nat) : List TextEdit → Bytes
  | [] => content.drop cursor
  | e :: rest =>
    (content.drop cursor).take (e.range.start.toNat - cursor) ++ e.text ++
      splice content e.range.stop.toNat rest

/-- Applies a batch to a plain text; all offsets are those of the text before. -/
def applyText (content : Bytes) (edits : List TextEdit) : Except EditError Bytes :=
  match prepare edits content.length with
  | .error e => .error e
  | .ok sorted => .ok (splice content 0 sorted)

end TextEdit
end LosslessTree
