import LosslessTree.Number.FloatText
import LosslessTree.Yaml.Place

/-! Scanning scalars: plain, between quotes, and as blocks of lines. Line breaks within a plain or quoted
scalar fold into spaces, and so do those of a folded block. -/
namespace LosslessTree.Yaml

/-- White space within a scalar that is not settled yet. -/
structure Pending where
  blanks : List Nat := []
  /-- The first line break, if there was one. -/
  firstBreak : List Nat := []
  moreBreaks : List Nat := []
  /-- Whether a line break has been passed. -/
  onNewLine : Bool := false

/-- What pending white space amounts to before more text. -/
def Pending.settle (w : Pending) : List Nat :=
  if w.onNewLine then
    if w.firstBreak == [0x0A] then
      if w.moreBreaks.isEmpty then [0x20] else w.moreBreaks
    else w.firstBreak ++ w.moreBreaks
  else w.blanks

/-- Passes one line break. -/
def Pending.addBreak (w : Pending) (b : List Nat) : Pending :=
  if w.onNewLine then { w with moreBreaks := w.moreBreaks ++ b }
  else { w with blanks := [], firstBreak := b, onNewLine := true }

/-- Passes blanks and line breaks. A tab may stand at the start of a line only from column `indent` on. -/
def passBlanks (start : Mark) (indent : Nat) (fuel : Nat) (w : Pending) (p : Place) :
    Except Error (Pending × Place) :=
  match fuel, p.ahead 0 with
  | 0, _ | _, none => .ok (w, p)
  | fuel + 1, some c =>
    if isBlank c then
      if w.onNewLine then
        if c == 0x09 && p.mark.column < indent then .error (.ofScan start p.mark .tabInPlain)
        else passBlanks start indent fuel w p.skip
      else passBlanks start indent fuel { w with blanks := w.blanks ++ [c] } p.skip
    else if isBreak c then passBlanks start indent fuel (w.addBreak p.lineBreak) p.skipLine
    else .ok (w, p)

/-! Plain scalars. -/

/-- Whether a plain scalar ends before the next character. -/
def endsPlain (inFlow : Bool) (p : Place) : Bool :=
  (p.isAt 0 0x3A && p.isBlankOrEnd 1) ||
    (inFlow && (p.isAt 0 0x2C || p.isAt 0 0x5B || p.isAt 0 0x5D || p.isAt 0 0x7B || p.isAt 0 0x7D ||
      (p.isAt 0 0x3F && (p.ahead 1).all isSpace)))

/-- The characters of a plain scalar up to white space. -/
def plainWord (inFlow : Bool) (fuel : Nat) (out : List Nat) (p : Place) : List Nat × Place :=
  match fuel, p.ahead 0 with
  | 0, _ | _, none => (out.reverse, p)
  | fuel + 1, some c =>
    if isBlank c || isBreak c || endsPlain inFlow p then (out.reverse, p)
    else plainWord inFlow fuel (c :: out) p.skip

structure Scanned where
  value : List Nat
  next : Place
  /-- Whether the scan ended on a new line. -/
  onNewLine : Bool := false

/-- The rest of a plain scalar; `indent` is the least column of its further lines. -/
def plainFrom (inFlow : Bool) (start : Mark) (indent : Nat) (fuel : Nat) (out : List Nat) (w : Pending)
    (p : Place) : Except Error Scanned :=
  match fuel with
  | 0 => .ok ⟨out, p, w.onNewLine⟩
  | fuel + 1 =>
    if p.isDocumentIndicator || p.isAt 0 0x23 then .ok ⟨out, p, w.onNewLine⟩
    else
      let (word, next) := plainWord inFlow (p.rest.length + 1) [] p
      let out := if word.isEmpty then out else out ++ w.settle ++ word
      let w := if word.isEmpty then w else {}
      if !next.sees 0 fun c => isBlank c || isBreak c then .ok ⟨out, next, w.onNewLine⟩
      else match passBlanks start indent (next.rest.length + 1) w next with
        | .error e => .error e
        | .ok (w, next) =>
          if !inFlow && next.mark.column < indent then .ok ⟨out, next, w.onNewLine⟩
          else plainFrom inFlow start indent fuel out w next

def plain (inFlow : Bool) (indent : Nat) (p : Place) : Except Error Scanned :=
  plainFrom inFlow p.mark indent (p.rest.length + 1) [] {} p

/-! Quoted scalars. -/

/-- The characters of the escapes that stand for one character. -/
def escapes : List (Nat × Nat) :=
  [(0x30, 0), (0x61, 0x07), (0x62, 0x08), (0x74, 0x09), (0x09, 0x09), (0x6E, 0x0A), (0x76, 0x0B),
    (0x66, 0x0C), (0x72, 0x0D), (0x65, 0x1B), (0x20, 0x20), (0x22, 0x22), (0x27, 0x27), (0x5C, 0x5C),
    (0x4E, 0x85), (0x5F, 0xA0), (0x4C, 0x2028), (0x50, 0x2029)]

/-- How many hexadecimal digits follow the letter of an escape. -/
def escapeDigits : Nat → Nat
  | 0x78 => 2
  | 0x75 => 4
  | 0x55 => 8
  | _ => 0

def hexNumber? (digits : List Nat) : Option Nat :=
  digits.foldl (fun n c => do
    let n ← n
    let v ← if c < 0x80 then FloatText.hexValue? c.toUInt8 else none
    some (n * 16 + v)) (some 0)

/-- An escape after its backslash. -/
def escape (start : Mark) (p : Place) : Except Error (Nat × Place) :=
  let letter := (p.ahead 1).getD 0
  match escapes.lookup letter with
  | some c => .ok (c, p.skips 2)
  | none =>
    let count := escapeDigits letter
    if count = 0 then .error (.ofScan start p.mark .unknownEscape)
    else
      let after := p.skips 2
      let digits := after.rest.take count
      if digits.length < count then .error (.ofScan start after.mark .noHexNumber)
      else match hexNumber? digits with
        | none => .error (.ofScan start after.mark .noHexNumber)
        | some n =>
          if (0xD800 ≤ n && n ≤ 0xDFFF) || 0x10FFFF < n then
            .error (.ofScan start after.mark .badEscapeCode)
          else .ok (n, after.skips count)

/-- The characters between quotes up to white space or the closing quote; a backslash at the end of a
line joins it to the next one. -/
def quotedWord (single : Bool) (start : Mark) (fuel : Nat) (out : List Nat) (p : Place) :
    Except Error (List Nat × Bool × Place) :=
  match fuel, p.ahead 0 with
  | 0, _ | _, none => .ok (out.reverse, false, p)
  | fuel + 1, some c =>
    if isBlank c || isBreak c then .ok (out.reverse, false, p)
    else if single then
      if c == 0x27 then
        if p.isAt 1 0x27 then quotedWord single start fuel (0x27 :: out) (p.skips 2)
        else .ok (out.reverse, false, p)
      else quotedWord single start fuel (c :: out) p.skip
    else if c == 0x22 then .ok (out.reverse, false, p)
    else if c == 0x5C then
      if p.sees 1 isBreak then .ok (out.reverse, true, p.skip.skipLine)
      else match escape start p with
        | .error e => .error e
        | .ok (d, next) => quotedWord single start fuel (d :: out) next
    else quotedWord single start fuel (c :: out) p.skip

def quotedFrom (single : Bool) (start : Mark) (fuel : Nat) (out : List Nat) (p : Place) :
    Except Error Scanned :=
  match fuel with
  | 0 => .error (.ofScan start p.mark .endInQuotes)
  | fuel + 1 =>
    if p.isDocumentIndicator then .error (.ofScan start p.mark .documentIndicatorInQuotes)
    else if p.isEnd then .error (.ofScan start p.mark .endInQuotes)
    else match quotedWord single start (p.rest.length + 1) [] p with
      | .error e => .error e
      | .ok (word, joined, next) =>
        let out := out ++ word
        if next.isAt 0 (if single then 0x27 else 0x22) then .ok ⟨out, next.skip, false⟩
        else match passBlanks start 0 (next.rest.length + 1) { onNewLine := joined } next with
          | .error e => .error e
          | .ok (w, next) => quotedFrom single start fuel (out ++ w.settle) next

/-- A scalar between quotes. -/
def quoted (single : Bool) (p : Place) : Except Error Scanned :=
  quotedFrom single p.mark (p.rest.length + 2) [] p.skip

/-! Block scalars. -/

inductive Chomping where
  | strip | clip | keep
  deriving DecidableEq, Repr

/-- Passes indentation and empty lines. The indentation is found here if it is not known yet; it is at
least `least`. -/
def blockBreaks (start : Mark) (indent : Nat) (deepest : Nat) (fuel : Nat) (breaks : List Nat)
    (p : Place) : Except Error (List Nat × Nat × Place) :=
  match fuel with
  | 0 => .ok (breaks, deepest, p)
  | fuel + 1 =>
    let known := indent != 0
    let spaces := p.rest.takeWhile isSpace
    let count := if known then min spaces.length (indent - p.mark.column) else spaces.length
    let p := p.skips count
    let deepest := max deepest p.mark.column
    if (!known || p.mark.column < indent) && p.isAt 0 0x09 then
      .error (.ofScan start p.mark .tabInBlock)
    else if p.sees 0 isBreak then
      blockBreaks start indent deepest fuel (breaks ++ p.lineBreak) p.skipLine
    else .ok (breaks, deepest, p)

structure BlockState where
  out : List Nat := []
  lastBreak : List Nat := []
  breaks : List Nat := []
  lastBlank : Bool := false

/-- The lines of a block at a known indentation. -/
def blockLines (literal : Bool) (start : Mark) (indent : Nat) (fuel : Nat) (s : BlockState)
    (p : Place) : Except Error (BlockState × Place) :=
  match fuel with
  | 0 => .ok (s, p)
  | fuel + 1 =>
    if p.mark.column ≠ indent || p.isEnd then .ok (s, p)
    else
      let blank := p.sees 0 isBlank
      let joint :=
        if !literal && !s.lastBlank && !blank && s.lastBreak == [0x0A] then
          if s.breaks.isEmpty then [0x20] else []
        else s.lastBreak
      let (line, next) := p.takeWhile (!isBreak ·)
      let out := s.out ++ joint ++ s.breaks ++ line
      let lastBreak := next.lineBreak
      let next := next.skipLine
      match blockBreaks start indent 0 (next.rest.length + 1) [] next with
      | .error e => .error e
      | .ok (breaks, _, next) => blockLines literal start indent fuel ⟨out, lastBreak, breaks, blank⟩ next

/-- A digit that gives the indentation. -/
def blockDigit (start : Mark) (p : Place) : Except Error (Nat × Place) :=
  match p.ahead 0 with
  | some c =>
    if c == 0x30 then .error (.ofScan start p.mark .zeroIndentation)
    else if isDigit c then .ok (c - 0x30, p.skip)
    else .ok (0, p)
  | none => .ok (0, p)

def blockChomping (p : Place) : Chomping × Place :=
  if p.isAt 0 0x2B then (.keep, p.skip)
  else if p.isAt 0 0x2D then (.strip, p.skip)
  else (.clip, p)

/-- A block scalar; `parent` is the indentation of what it belongs to, if any. -/
def block (literal : Bool) (parent : Option Nat) (p : Place) : Except Error Scanned := do
  let start := p.mark
  let p := p.skip
  let (chomping, p) := blockChomping p
  let (increment, p) ← blockDigit start p
  let (chomping, p) := if chomping == .clip && increment != 0 then blockChomping p else (chomping, p)
  let p := p.skipWhile isBlank
  let p := if p.isAt 0 0x23 then p.skipWhile (!isBreak ·) else p
  if !p.isBreakOrEnd 0 then .error (.ofScan start p.mark .noCommentOrBreak)
  else
    let p := if p.isEnd then p else p.skipLine
    let indent := if increment = 0 then 0 else parent.getD 0 + increment
    let (breaks, deepest, p) ← blockBreaks start indent 0 (p.rest.length + 1) [] p
    let least := match parent with
      | some n => n + 1
      | none => 0
    let indent := if indent = 0 then max (max deepest least) 1 else indent
    let (s, p) ← blockLines literal start indent (p.rest.length + 1) { breaks := breaks } p
    let tail := match chomping with
      | .strip => []
      | .clip => s.lastBreak
      | .keep => s.lastBreak ++ s.breaks
    .ok ⟨s.out ++ tail, p, true⟩

end LosslessTree.Yaml
