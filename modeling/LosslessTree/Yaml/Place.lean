import LosslessTree.Bytes.Utf8
import LosslessTree.Yaml.Problem

/-! Places in a YAML text, and moving over it. -/
namespace LosslessTree.Yaml

structure Mark where
  /-- Characters before. -/
  index : Nat := 0
  line : Nat := 0
  column : Nat := 0
  deriving DecidableEq, Repr

/-- A scanner blames the line of the construct it was in, or the one it stopped at; the first line is
not told. -/
def Error.ofScan (context here : Mark) (problem : Problem) : Error :=
  if context.line ≠ 0 then ⟨context.line + 1, problem⟩
  else if here.line ≠ 0 then ⟨here.line + 1, problem⟩
  else ⟨0, problem⟩

/-- Beyond the tokens, lines are told by the number of line breaks before them. -/
def Error.ofParse (context here : Mark) (problem : Problem) : Error :=
  ⟨if context.line ≠ 0 then context.line else here.line, problem⟩

/-- The text still ahead, as code points, and where it starts. -/
structure Place where
  rest : List Nat
  mark : Mark := {}
  deriving DecidableEq, Repr

def isSpace (c : Nat) : Bool := c == 0x20
def isBlank (c : Nat) : Bool := c == 0x20 || c == 0x09
def isBreak (c : Nat) : Bool :=
  c == 0x0D || c == 0x0A || c == 0x85 || c == 0x2028 || c == 0x2029
def isWord (c : Nat) : Bool :=
  (0x30 ≤ c && c ≤ 0x39) || (0x41 ≤ c && c ≤ 0x5A) || (0x61 ≤ c && c ≤ 0x7A) ||
    c == 0x5F || c == 0x2D
def isDigit (c : Nat) : Bool := 0x30 ≤ c && c ≤ 0x39

namespace Place

/-- The character `n` places ahead; nothing at the end. -/
def ahead (p : Place) (n : Nat) : Option Nat := p.rest[n]?

def isEnd (p : Place) : Bool := p.rest.isEmpty

/-- Whether the character `n` places ahead passes a test. -/
def sees (p : Place) (n : Nat) (test : Nat → Bool) : Bool := (p.ahead n).any test

def isAt (p : Place) (n c : Nat) : Bool := p.ahead n == some c

/-- Whether a blank, a line break or the end is `n` places ahead. -/
def isBlankOrEnd (p : Place) (n : Nat) : Bool :=
  match p.ahead n with
  | none => true
  | some c => isBlank c || isBreak c

def isBreakOrEnd (p : Place) (n : Nat) : Bool :=
  match p.ahead n with
  | none => true
  | some c => isBreak c

/-- Moves over one character of a line. -/
def skip (p : Place) : Place :=
  { rest := p.rest.tail
    mark := { p.mark with index := p.mark.index + 1, column := p.mark.column + 1 } }

def skips (n : Nat) (p : Place) : Place := n.repeat skip p

/-- Moves over a line break. -/
def skipLine (p : Place) : Place :=
  match p.rest with
  | 0x0D :: 0x0A :: rest => ⟨rest, ⟨p.mark.index + 2, p.mark.line + 1, 0⟩⟩
  | _ :: rest => ⟨rest, ⟨p.mark.index + 1, p.mark.line + 1, 0⟩⟩
  | [] => p

/-- What a line break reads as: a line feed, unless it separates lines or paragraphs. -/
def lineBreak (p : Place) : List Nat :=
  match p.rest with
  | 0x2028 :: _ => [0x2028]
  | 0x2029 :: _ => [0x2029]
  | [] => []
  | _ => [0x0A]

/-- Moves over the characters of a line that pass a test, and tells them. -/
def takeWhile (test : Nat → Bool) (p : Place) : List Nat × Place :=
  let taken := p.rest.takeWhile test
  (taken, { rest := p.rest.drop taken.length
            mark := { p.mark with
              index := p.mark.index + taken.length
              column := p.mark.column + taken.length } })

def skipWhile (test : Nat → Bool) (p : Place) : Place := (p.takeWhile test).2

/-- Whether `---` or `...` stands alone at the start of a line. -/
def isIndicator (p : Place) (c : Nat) : Bool :=
  p.mark.column == 0 && p.isAt 0 c && p.isAt 1 c && p.isAt 2 c && p.isBlankOrEnd 3

def isDocumentIndicator (p : Place) : Bool := p.isIndicator 0x2D || p.isIndicator 0x2E

end Place

/-- The characters that may stand in a text. -/
def isAllowed (c : Nat) : Bool :=
  c == 0x09 || c == 0x0A || c == 0x0D || (0x20 ≤ c && c ≤ 0x7E) || c == 0x85 ||
    (0xA0 ≤ c && c ≤ 0xD7FF) || (0xE000 ≤ c && c ≤ 0xFFFD && c != 0xFEFF) ||
    (0x10000 ≤ c && c ≤ 0x10FFFF)

/-- How many bytes the first byte of a sequence announces; none if it cannot be first. -/
def announced (b : UInt8) : Nat :=
  if b < 0x80 then 1
  else if b.toNat / 0x20 == 6 then 2
  else if b.toNat / 0x10 == 14 then 3
  else if b.toNat / 8 == 30 then 4
  else 0

/-- The value that the bytes of a sequence spell. -/
def spelled (width : Nat) (b : UInt8) (tail : Bytes) : Nat :=
  let head := match width with
    | 1 => b.toNat
    | 2 => b.toNat % 0x20
    | 3 => b.toNat % 0x10
    | _ => b.toNat % 8
  tail.foldl (fun n b => n * 0x40 + b.toNat % 0x40) head

def isOverlong (width value : Nat) : Bool :=
  match width with
  | 1 => false
  | 2 => value < 0x80
  | 3 => value < 0x800
  | _ => value < 0x10000

/-- The characters of a text, or what is wrong with its bytes. -/
def characters (fuel : Nat) (text : Bytes) : Except Problem (List Nat) :=
  match fuel, text with
  | 0, _ | _, [] => .ok []
  | fuel + 1, b :: rest =>
    let width := announced b
    let tail := rest.take (width - 1)
    let value := spelled width b tail
    if width = 0 then .error .invalidLeadingOctet
    else if tail.length < width - 1 then .error .incompleteOctets
    else if !tail.all Utf8.isContinuation then .error .invalidTrailingOctet
    else if isOverlong width value then .error .invalidLength
    else if (0xD800 ≤ value && value ≤ 0xDFFF) || 0x10FFFF < value then .error .invalidCharacter
    else if !isAllowed value then .error .controlCharacter
    else (characters fuel (rest.drop (width - 1))).map (value :: ·)

/-- The start of a text; a byte order mark before it does not count. -/
def Place.ofText (text : Bytes) : Except Error Place :=
  let text := (Bytes.after? [0xEF, 0xBB, 0xBF] text).getD text
  match characters text.length text with
  | .ok cs => .ok { rest := cs }
  | .error e => .error { problem := e }

/-- The bytes of characters. -/
def encode (cs : List Nat) : Bytes := cs.flatMap Utf8.encode

end LosslessTree.Yaml
