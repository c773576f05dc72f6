import LosslessTree.Language.Markdown.Line
import LosslessTree.Language.Markdown.Token

/-! Link reference definitions at the start of a paragraph. They belong to no block: their lines are
taken out. -/
namespace LosslessTree.Markdown.LinkDefinition

/-- A position in the lines of a paragraph. Using up the last byte of a line moves on to the next. -/
structure Reader where
  line : Nat := 0
  rest : Bytes
  following : List Bytes

namespace Reader

def ofLines (lines : List Bytes) : Reader := { rest := lines.headD [], following := lines.tail }

def nextLine (r : Reader) : Reader :=
  match r.following with
  | [] => { line := r.line + 1, rest := [], following := [] }
  | next :: following => { line := r.line + 1, rest := next, following := following }

/-- Uses up bytes of the current line. -/
def advance (r : Reader) (n : Nat) : Reader :=
  if n < r.rest.length then { r with rest := r.rest.drop n }
  else if r.following.isEmpty then { r with rest := [] }
  else r.nextLine

def size (r : Reader) : Nat := r.rest.length + (r.following.map (·.length + 1)).foldl (· + ·) 0

/-- Skips white space, over line ends as well, and counts it. -/
def skipSpaces (r : Reader) (count : Nat) (fuel : Nat) : Reader × Nat :=
  match fuel with
  | 0 => (r, count)
  | fuel + 1 =>
    match r.rest with
    | b :: _ => if isSpace b then skipSpaces (r.advance 1) (count + 1) fuel else (r, count)
    | [] => (r, count)

def skip (r : Reader) : Reader × Nat := r.skipSpaces 0 (r.size + 1)

end Reader

/-- The bytes before the closing byte in a line; an opening byte on the way is a failure. -/
inductive Closure where
  | found (length : Nat)
  | refused
  | absent

def closureIn (opener closer : UInt8) (length : Nat) : Bytes → Closure
  | [] => .absent
  | b :: rest =>
    if b == 0x5C then
      match rest with
      | c :: after =>
        if isPunctuation c then closureIn opener closer (length + 2) after
        else closureIn opener closer (length + 1) (c :: after)
      | [] => .absent
    else if b == closer then .found length
    else if b == opener then .refused
    else closureIn opener closer (length + 1) rest

/-- The text up to the closing byte, which may be in a later line, and the reader after it; without
one, the reader where the search ended. -/
def closure (opener closer : UInt8) (text : Bytes) (r : Reader) (fuel : Nat) :
    Option Bytes × Reader :=
  match fuel with
  | 0 => (none, r)
  | fuel + 1 =>
    if r.rest.isEmpty then (none, r)
    else match closureIn opener closer 0 r.rest with
      | .found n => (some (text ++ r.rest.take n), r.advance (n + 1))
      | .refused => (none, r)
      | .absent => closure opener closer (text ++ r.rest) r.nextLine fuel

def findClosure (opener closer : UInt8) (r : Reader) : Option Bytes × Reader :=
  closure opener closer [] r (r.following.length + 2)

/-- The length of a destination in pointed brackets, without the opening one. -/
def angledLength? (length : Nat) : Bytes → Option Nat
  | [] => none
  | b :: rest =>
    if b == 0x5C then
      match rest with
      | c :: after =>
        if isPunctuation c then angledLength? (length + 2) after
        else angledLength? (length + 1) (c :: after)
      | [] => none
    else if b == 0x3E then some length
    else angledLength? (length + 1) rest

/-- The length of a bare destination: up to white space or an unmatched closing parenthesis. -/
def bareLength (opened length : Nat) : Bytes → Nat
  | [] => length
  | b :: rest =>
    if b == 0x5C then
      match rest with
      | c :: after =>
        if isPunctuation c then bareLength opened (length + 2) after
        else bareLength opened (length + 1) (c :: after)
      | [] => length + 1
    else if b == 0x28 then bareLength (opened + 1) (length + 1) rest
    else if b == 0x29 then
      match opened with
      | 0 => length
      | opened + 1 => bareLength opened (length + 1) rest
    else if isSpace b then length
    else bareLength opened (length + 1) rest

/-- The reader after a link destination. -/
def destination? (r : Reader) : Option Reader :=
  let r := r.skip.1
  match r.rest with
  | 0x3C :: inside => (angledLength? 0 inside).map fun n => r.advance (n + 2)
  | _ =>
    match bareLength 0 0 r.rest with
    | 0 => none
    | n => some (r.advance n)

/-- The first line of a definition and the first line after it, with the reader behind it. -/
def definition? (r : Reader) : Option (Nat × Nat × Reader) :=
  let r := r.skip.1
  let first := r.line
  match r.rest with
  | 0x5B :: _ =>
    match findClosure 0x5B 0x5D (r.advance 1) with
    | (none, _) => none
    | (some label, r) =>
      if isBlankText label ∨ r.rest.head? ≠ some 0x3A then none
      else match destination? (r.advance 1).skip.1 with
        | none => none
        | some r =>
          let ends := isBlankText r.rest
          let last := r.line
          let (r, spaces) := r.skip
          let quote := r.rest.head?
          if quote != some 0x22 && quote != some 0x27 && quote != some 0x28 then
            if ends then some (first, last + 1, r) else none
          else if spaces = 0 then none
          else
            let opener := quote.getD 0
            let closer := if opener == 0x28 then 0x29 else opener
            match findClosure opener closer (r.advance 1) with
            | (none, r) => if ends then some (first, last + 1, r.nextLine) else none
            | (some _, r) =>
              if isBlankText r.rest then some (first, r.line + 1, r)
              else if ends then some (first, last, r)
              else none
  | _ => none

/-- How many lines at the start are taken up by definitions. -/
def linesTaken (taken : Nat) (r : Reader) (fuel : Nat) : Nat :=
  match fuel with
  | 0 => taken
  | fuel + 1 =>
    match definition? r with
    | none => taken
    | some (first, last, r) => linesTaken (if first = last then last + 1 else last) r fuel

/-- The lines of a paragraph that are left after its definitions. -/
def strip (src : Bytes) (lines : List Segment) : List Segment :=
  let r := Reader.ofLines (lines.map (Segment.text src))
  lines.drop (linesTaken 0 r (r.size + 1))

end LosslessTree.Markdown.LinkDefinition
