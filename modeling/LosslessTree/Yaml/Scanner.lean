import LosslessTree.Yaml.Place
import LosslessTree.Yaml.Scalar

/-! The tokens of YAML. -/
namespace LosslessTree.Yaml

inductive TokenKind where
  | streamStart | streamEnd
  | version (major minor : Nat)
  | tagDirective (handle expansion : Bytes)
  | documentStart | documentEnd
  | blockSequenceStart | blockMappingStart | blockEnd
  | flowSequenceStart | flowSequenceEnd | flowMappingStart | flowMappingEnd
  | blockEntry | flowEntry | key | value
  | alias (name : Bytes)
  | anchor (name : Bytes)
  | tag (handle suffix : Bytes)
  | scalar (value : Bytes) (isPlain : Bool)
  deriving DecidableEq, Repr

structure Token where
  kind : TokenKind
  start : Mark
  stop : Mark
  deriving DecidableEq, Repr

/-! The scanner. A key is known as such only at the colon behind it, so the scanner remembers where a key
may have begun and inserts the tokens for it afterwards. Tokens wait in a queue: the first one is handed
out when two more are known and it is no key that is still in doubt. -/

/-- Where a key may have begun. -/
structure KeyStart where
  /-- Whether nothing but a key can stand there. -/
  required : Bool
  /-- The number of the token it begins with. -/
  number : Nat
  mark : Mark
  deriving DecidableEq, Repr

structure Scanner where
  place : Place
  started : Bool := false
  queue : List Token := []
  /-- Tokens handed out. -/
  taken : Nat := 0
  /-- The column of the innermost block collection; `-1` outside. -/
  indent : Int := -1
  indents : List Int := []
  /-- How many flow collections are open. -/
  flow : Nat := 0
  /-- Key starts by flow level, innermost first. -/
  keys : List (Option KeyStart) := [none]
  keyAllowed : Bool := true

namespace Scanner

def mark (s : Scanner) : Mark := s.place.mark
def column (s : Scanner) : Int := s.place.mark.column
def inFlow (s : Scanner) : Bool := 0 < s.flow

def push (s : Scanner) (kind : TokenKind) (start stop : Mark) : Scanner :=
  { s with queue := s.queue ++ [⟨kind, start, stop⟩] }

/-- Inserts a token before the one of a given number. -/
def insertAt (s : Scanner) (number : Nat) (t : Token) : Scanner :=
  { s with queue := s.queue.insertIdx (number - s.taken) t }

def currentKey (s : Scanner) : Option KeyStart := (s.keys.head?).join

def setKey (s : Scanner) (k : Option KeyStart) : Scanner := { s with keys := k :: s.keys.tail }

/-- A key has to end on its line, within 1024 characters. -/
def isTooFar (s : Scanner) (k : KeyStart) : Bool :=
  k.mark.line < s.mark.line || k.mark.index + 1024 < s.mark.index

/-- Drops the key start of this level. -/
def removeKey (s : Scanner) : Except Error Scanner :=
  match s.currentKey with
  | none => .ok s
  | some k => if k.required then .error (.ofScan k.mark s.mark .noColon) else .ok (s.setKey none)

/-- Remembers that a key may begin here. -/
def saveKey (s : Scanner) : Except Error Scanner :=
  if s.keyAllowed then
    s.removeKey.map fun s' => s'.setKey (some
      { required := !s.inFlow && s.indent == s.column
        number := s.taken + s.queue.length
        mark := s.mark })
  else .ok s

/-- Leaves the block collections that are deeper than a column. -/
def unroll (scanned : Mark) (column : Int) (fuel : Nat) (s : Scanner) : Scanner :=
  match fuel with
  | 0 => s
  | fuel + 1 =>
    if s.inFlow || s.indent ≤ column then s
    else
      unroll scanned column fuel
        { s.push .blockEnd scanned scanned with
          indent := s.indents.headD (-1)
          indents := s.indents.tail }

def unrollTo (s : Scanner) (scanned : Mark) (column : Int) : Scanner :=
  unroll scanned column (s.indents.length + 1) s

/-- Enters a block collection if the column is deeper than the current one; its start goes before the
token of the given number, or last. -/
def roll (s : Scanner) (column : Nat) (number : Option Nat) (kind : TokenKind) (mark : Mark) :
    Scanner :=
  if s.inFlow || (column : Int) ≤ s.indent then s
  else
    let s := { s with indents := s.indent :: s.indents, indent := column }
    match number with
    | some n => s.insertAt n ⟨kind, mark, mark⟩
    | none => s.push kind mark mark

/-- Moves on and adds a token of some width. -/
def consume (s : Scanner) (kind : TokenKind) (width : Nat) : Scanner :=
  let next := s.place.skips width
  { s.push kind s.mark next.mark with place := next }

/-- The lines of a comment and of those right after it. -/
def skipComments (fuel : Nat) (p : Place) : Place :=
  match fuel with
  | 0 => p
  | fuel + 1 =>
    let p := p.skipWhile (!isBreak ·)
    let next := (skipEmpty (p.rest.length + 1) p)
    if next.isAt 0 0x23 then skipComments fuel next else p
where
  /-- Blanks and line breaks. -/
  skipEmpty (fuel : Nat) (p : Place) : Place :=
    match fuel, p.ahead 0 with
    | 0, _ | _, none => p
    | fuel + 1, some c =>
      if isBlank c then skipEmpty fuel p.skip
      else if isBreak c then skipEmpty fuel p.skipLine
      else p

/-- Moves to the next token. Tabs do not count as indentation where a key may begin. -/
def toNextToken (fuel : Nat) (s : Scanner) : Scanner :=
  match fuel with
  | 0 => s
  | fuel + 1 =>
    let p := if s.place.mark.column == 0 && s.place.isAt 0 0xFEFF then s.place.skip else s.place
    let p := p.skipWhile fun c => isSpace c || (c == 0x09 && (s.inFlow || !s.keyAllowed))
    let p := if p.isAt 0 0x23 then skipComments (p.rest.length + 1) p else p
    if p.sees 0 isBreak then
      toNextToken fuel { s with place := p.skipLine, keyAllowed := s.keyAllowed || !s.inFlow }
    else { s with place := p }

def fetchStreamEnd (s : Scanner) : Except Error Scanner := do
  let m := s.mark
  let m := if m.column = 0 then m else { m with column := 0, line := m.line + 1 }
  let s := { s with place := { s.place with mark := m } }
  let s ← (s.unrollTo m (-1)).removeKey
  .ok ({ s with keyAllowed := false }.push .streamEnd m m)

def fetchDocumentIndicator (s : Scanner) (kind : TokenKind) : Except Error Scanner := do
  let s ← (s.unrollTo s.mark (-1)).removeKey
  .ok ({ s with keyAllowed := false }.consume kind 3)

def fetchFlowStart (s : Scanner) (kind : TokenKind) : Except Error Scanner := do
  let s ← s.saveKey
  .ok ({ s with flow := s.flow + 1, keys := none :: s.keys, keyAllowed := true }.consume kind 1)

def fetchFlowEnd (s : Scanner) (kind : TokenKind) : Except Error Scanner := do
  let s ← s.removeKey
  let s := if s.inFlow then { s with flow := s.flow - 1, keys := s.keys.tail } else s
  .ok ({ s with keyAllowed := false }.consume kind 1)

def fetchFlowEntry (s : Scanner) : Except Error Scanner := do
  let s ← s.removeKey
  .ok ({ s with keyAllowed := true }.consume .flowEntry 1)

def fetchBlockEntry (s : Scanner) : Except Error Scanner :=
  if !s.inFlow && !s.keyAllowed then .error (.ofScan s.mark s.mark .entriesNotAllowed)
  else do
    let s ← (s.roll s.mark.column none .blockSequenceStart s.mark).removeKey
    .ok ({ s with keyAllowed := true }.consume .blockEntry 1)

def fetchKey (s : Scanner) : Except Error Scanner :=
  if !s.inFlow && !s.keyAllowed then .error (.ofScan s.mark s.mark .keysNotAllowed)
  else do
    let s ← (s.roll s.mark.column none .blockMappingStart s.mark).removeKey
    .ok ({ s with keyAllowed := !s.inFlow }.consume .key 1)

/-- Whether a key start can still be one. -/
def isPossible (s : Scanner) (k : KeyStart) : Except Error Bool :=
  if s.isTooFar k then
    if k.required then .error (.ofScan k.mark s.mark .noColon) else .ok false
  else .ok true

def fetchValue (s : Scanner) : Except Error Scanner := do
  let key ← match s.currentKey with
    | none => pure none
    | some k => do pure (if ← s.isPossible k then some k else none)
  match key with
  | some k =>
    let s := s.insertAt k.number ⟨.key, k.mark, k.mark⟩
    let s := s.roll k.mark.column (some k.number) .blockMappingStart k.mark
    .ok ({ s.setKey none with keyAllowed := false }.consume .value 1)
  | none =>
    let s := s.setKey none
    if s.inFlow then .ok ({ s with keyAllowed := false }.consume .value 1)
    else if !s.keyAllowed then .error (.ofScan s.mark s.mark .valuesNotAllowed)
    else
      .ok ({ s.roll s.mark.column none .blockMappingStart s.mark with keyAllowed := true }.consume
        .value 1)

/-- What may follow the name of an anchor. -/
def endsName (p : Place) : Bool :=
  p.isBlankOrEnd 0 || p.sees 0 fun c => [0x3F, 0x3A, 0x2C, 0x5D, 0x7D, 0x25, 0x40, 0x60].contains c

def fetchAnchor (s : Scanner) (kind : Bytes → TokenKind) : Except Error Scanner := do
  let s ← s.saveKey
  let (name, next) := s.place.skip.takeWhile isWord
  if name.isEmpty || !endsName next then .error (.ofScan s.mark next.mark .noAnchorName)
  else .ok { { s with keyAllowed := false }.push (kind (encode name)) s.mark next.mark with place := next }

/-- The characters of a tag. -/
def isTagCharacter (c : Nat) : Bool :=
  isWord c || [0x3B, 0x2F, 0x3F, 0x3A, 0x40, 0x26, 0x3D, 0x2B, 0x24, 0x2C, 0x2E, 0x21, 0x7E, 0x2A,
    0x27, 0x28, 0x29, 0x5B, 0x5D, 0x25].contains c

/-- `!word!` or what there is of it. -/
def tagHandle (p : Place) : List Nat × Place :=
  let (word, next) := p.skip.takeWhile isWord
  if next.isAt 0 0x21 then (0x21 :: word ++ [0x21], next.skip) else (0x21 :: word, next)

def scanTag (p : Place) : Except Error (Bytes × Bytes × Place) :=
  if p.isAt 1 0x3C then
    let (suffix, next) := (p.skips 2).takeWhile isTagCharacter
    if suffix.isEmpty then .error (.ofScan p.mark next.mark .noTagUri)
    else if next.isAt 0 0x3E then .ok ([], encode suffix, next.skip)
    else .error (.ofScan p.mark next.mark .noTagClose)
  else
    let (handle, next) := tagHandle p
    let (suffix, after) := next.takeWhile isTagCharacter
    if 1 < handle.length && handle.getLast? == some 0x21 then
      if suffix.isEmpty then .error (.ofScan p.mark after.mark .noTagUri)
      else .ok (encode handle, encode suffix, after)
    else match handle.tail ++ suffix with
      | [] => .ok ([], [0x21], after)
      | suffix => .ok ([0x21], encode suffix, after)

def fetchTag (s : Scanner) : Except Error Scanner := do
  let s ← s.saveKey
  let (handle, suffix, next) ← scanTag s.place
  if !next.isBlankOrEnd 0 then .error (.ofScan s.mark next.mark .noTagEnd)
  else .ok { { s with keyAllowed := false }.push (.tag handle suffix) s.mark next.mark with place := next }

def fetchScalar (s : Scanner) (isPlain : Bool) (scan : Place → Except Error Scanned) :
    Except Error Scanner := do
  let s ← s.saveKey
  let scanned ← scan s.place
  .ok { s.push (.scalar (encode scanned.value) isPlain) s.mark scanned.next.mark with
    place := scanned.next
    keyAllowed := scanned.onNewLine }

def fetchBlockScalar (s : Scanner) (literal : Bool) : Except Error Scanner := do
  let s ← s.removeKey
  let scanned ← block literal (if s.indent < 0 then none else some s.indent.toNat) s.place
  .ok { s.push (.scalar (encode scanned.value) false) s.mark scanned.next.mark with
    place := scanned.next
    keyAllowed := true }

def number (cs : List Nat) : Nat := cs.foldl (fun n c => n * 10 + (c - 0x30)) 0

/-- One of the numbers of a version. -/
def versionNumber (start : Mark) (p : Place) : Except Error (Nat × Place) :=
  let (digits, next) := p.takeWhile isDigit
  if digits.isEmpty then .error (.ofScan start next.mark .noVersion)
  else if 9 < digits.length then .error (.ofScan start next.mark .longVersion)
  else .ok (number digits, next)

def scanVersion (start : Mark) (p : Place) : Except Error (TokenKind × Place) := do
  let (major, p) ← versionNumber start (p.skipWhile isBlank)
  if !p.isAt 0 0x2E then .error (.ofScan start p.mark .noVersionPoint)
  else
    let (minor, p) ← versionNumber start p.skip
    .ok (.version major minor, p)

def scanTagDirective (start : Mark) (p : Place) : Except Error (TokenKind × Place) :=
  let p := p.skipWhile isBlank
  if !p.isAt 0 0x21 then .error (.ofScan start p.mark .noTagHandleEnd)
  else
    let (handle, next) := tagHandle p
    if handle != [0x21] && !(1 < handle.length && handle.getLast? == some 0x21) then
      .error (.ofScan start next.mark .noTagHandleEnd)
    else if !next.sees 0 isBlank then .error (.ofScan start next.mark .noBlankAfterDirective)
    else
      let (expansion, after) := (next.skipWhile isBlank).takeWhile isTagCharacter
      if expansion.isEmpty then .error (.ofScan start after.mark .noTagUri)
      else if !after.isBlankOrEnd 0 then .error (.ofScan start after.mark .noTagEnd)
      else .ok (.tagDirective (encode handle) (encode expansion), after)

def fetchDirective (s : Scanner) : Except Error Scanner := do
  let s ← (s.unrollTo s.mark (-1)).removeKey
  let start := s.mark
  let (name, next) := s.place.skip.takeWhile isWord
  if name.isEmpty then .error (.ofScan start next.mark .noDirectiveName)
  else if !next.isBlankOrEnd 0 then .error (.ofScan start next.mark .badDirectiveName)
  else
    let (kind, next) ←
      if encode name = Bytes.ofString "YAML" then scanVersion start next
      else if encode name = Bytes.ofString "TAG" then scanTagDirective start next
      else .error (.ofScan start next.mark .unknownDirective)
    let stop := next.mark
    let next := next.skipWhile isBlank
    let next := if next.isAt 0 0x23 then next.skipWhile (!isBreak ·) else next
    if !next.isBreakOrEnd 0 then .error (.ofScan start next.mark .noCommentOrBreak)
    else
      .ok { { s with keyAllowed := false }.push kind start stop with
        place := if next.isEnd then next else next.skipLine }

/-- Characters that cannot begin a plain scalar. -/
def indicators : List Nat :=
  [0x2D, 0x3F, 0x3A, 0x2C, 0x5B, 0x5D, 0x7B, 0x7D, 0x23, 0x26, 0x2A, 0x21, 0x7C, 0x3E, 0x27, 0x22,
    0x25, 0x40, 0x60]

def startsPlain (s : Scanner) : Bool :=
  let p := s.place
  !(p.isBlankOrEnd 0 || p.sees 0 indicators.contains) ||
    (p.isAt 0 0x2D && !p.sees 1 isBlank) ||
    (!s.inFlow && (p.isAt 0 0x3F || p.isAt 0 0x3A) && !p.isBlankOrEnd 1)

/-- Scans one more token, and those that it implies. -/
def fetch (s : Scanner) : Except Error Scanner :=
  if !s.started then .ok ({ s with started := true }.push .streamStart s.mark s.mark)
  else
    let scanned := s.mark
    let s := toNextToken (s.place.rest.length + 1) s
    let s := s.unrollTo scanned s.column
    let p := s.place
    match p.ahead 0 with
    | none => s.fetchStreamEnd
    | some c =>
      if p.mark.column == 0 && c == 0x25 then s.fetchDirective
      else if p.isIndicator 0x2D then s.fetchDocumentIndicator .documentStart
      else if p.isIndicator 0x2E then s.fetchDocumentIndicator .documentEnd
      else if c == 0x5B then s.fetchFlowStart .flowSequenceStart
      else if c == 0x7B then s.fetchFlowStart .flowMappingStart
      else if c == 0x5D then s.fetchFlowEnd .flowSequenceEnd
      else if c == 0x7D then s.fetchFlowEnd .flowMappingEnd
      else if c == 0x2C then s.fetchFlowEntry
      else if c == 0x2D && p.isBlankOrEnd 1 then s.fetchBlockEntry
      else if c == 0x3F && (s.inFlow || p.isBlankOrEnd 1) then s.fetchKey
      else if c == 0x3A && (s.inFlow || p.isBlankOrEnd 1) then s.fetchValue
      else if c == 0x2A then s.fetchAnchor .alias
      else if c == 0x26 then s.fetchAnchor .anchor
      else if c == 0x21 then s.fetchTag
      else if c == 0x7C && !s.inFlow then s.fetchBlockScalar true
      else if c == 0x3E && !s.inFlow then s.fetchBlockScalar false
      else if c == 0x27 then s.fetchScalar false (quoted true)
      else if c == 0x22 then s.fetchScalar false (quoted false)
      else if s.startsPlain then s.fetchScalar true (plain s.inFlow (s.indent + 1).toNat)
      else .error (.ofScan s.mark s.mark .noToken)

/-- Whether the first token may be handed out. -/
def isReady (s : Scanner) : Except Error Bool :=
  if s.queue.length < 3 then .ok false
  else match s.keys.findSome? fun k => k.filter (·.number == s.taken) with
    | none => .ok true
    | some k => (s.isPossible k).map (!·)

def fill (fuel : Nat) (s : Scanner) : Except Error Scanner :=
  match fuel with
  | 0 => .ok s
  | fuel + 1 => do
    if ← s.isReady then .ok s else fill fuel (← s.fetch)

/-- Makes sure that the first token is known. -/
def prepare (s : Scanner) : Except Error Scanner := fill (s.place.rest.length + 6) s

/-- Hands out the first token. -/
def drop (s : Scanner) : Scanner := { s with queue := s.queue.tail, taken := s.taken + 1 }

def ofText (text : Bytes) : Except Error Scanner := (Place.ofText text).map fun p => { place := p }

end Scanner
end LosslessTree.Yaml
