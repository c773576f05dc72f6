import LosslessTree.Language.Markdown.Symbol

/-! Markdown tokens, line by line: markers at the start of a line, then inline pieces, then the line
break. An open code fence is the only thing that reaches over a line. -/
namespace LosslessTree.Markdown

def isBlank (b : UInt8) : Bool := b == Bytes.space || b == Bytes.tab
def isEol (b : UInt8) : Bool := b == Bytes.newline || b == Bytes.carriageReturn

/-- The bytes that end a plain run of text. -/
def isPlain (b : UInt8) : Bool :=
  !(isBlank b || isEol b || b == 0x5C || b == 0x60 || b == 0x2A || b == 0x5F || b == 0x5B || b == 0x5D ||
    b == 0x28 || b == 0x29 || b == 0x21 || b == 0x3C)

/-- ASCII punctuation, which a backslash can escape. -/
def isPunctuation (b : UInt8) : Bool :=
  (0x21 ≤ b && b ≤ 0x2F) || (0x3A ≤ b && b ≤ 0x40) || (0x5B ≤ b && b ≤ 0x60) || (0x7B ≤ b && b ≤ 0x7E)

def count (test : UInt8 → Bool) (s : Bytes) : Nat := (s.takeWhile test).length

/-- Tokens recognized so far and the text after them. -/
structure Scan where
  tokens : List (Lexeme Symbol) := []
  rest : Bytes

namespace Scan

/-- Takes `n` bytes as one token; no bytes make no token. -/
def take (kind : Symbol) (n : Nat) (s : Scan) : Scan :=
  if n = 0 ∨ s.rest.isEmpty then s
  else { tokens := s.tokens ++ [⟨kind, s.rest.take n⟩], rest := s.rest.drop n }

/-- Takes the longest run of bytes that pass a test. -/
def run (kind : Symbol) (test : UInt8 → Bool) (s : Scan) : Scan := s.take kind (count test s.rest)

def newline (s : Scan) : Scan :=
  match s.rest with
  | 0x0D :: 0x0A :: _ => s.take .newline 2
  | b :: _ => if isEol b then s.take .newline 1 else s
  | [] => s

/-- Takes the rest of the line as one token, then the line break. -/
def restOfLine (kind : Symbol) (s : Scan) : Scan := (s.run kind (!isEol ·)).newline

end Scan

/-- The inline token at the start of a text within a line, and its length. -/
def inlineToken (b : UInt8) (rest : Bytes) : Symbol × Nat :=
  match b with
  | 0x5C => if rest.head?.any isPunctuation then (.escapedChar, 2) else (.text, 1)
  | 0x60 => (.backtick, 1 + count (· == 0x60) rest)
  | 0x2A => (.emphasisMarker, 1 + count (· == 0x2A) rest)
  | 0x5F => (.emphasisMarker, 1 + count (· == 0x5F) rest)
  | 0x5B => (.linkOpen, 1)
  | 0x5D => (.linkClose, 1)
  | 0x28 => (.parenOpen, 1)
  | 0x29 => (.parenClose, 1)
  | 0x21 => (.imageMarker, 1)
  | 0x3C =>
    let inside := count (fun b => b != 0x3E && !isEol b) rest
    if (rest.drop inside).head? == some 0x3E then (.html, inside + 2) else (.text, inside + 1)
  | _ =>
    if isBlank b then (.whitespace, 1 + count isBlank rest) else (.text, 1 + count isPlain rest)

/-- Inline tokens up to the end of the line. -/
def inlineTokens (s : Bytes) : List (Lexeme Symbol) × Bytes :=
  match s with
  | [] => ([], [])
  | b :: rest =>
    if isEol b then ([], s)
    else
      let (kind, n) := inlineToken b rest
      let (tokens, last) := inlineTokens (rest.drop (n - 1))
      (⟨kind, s.take n⟩ :: tokens, last)
termination_by s.length
decreasing_by simp only [List.length_cons, List.length_drop]; omega

def Scan.inline (s : Scan) : Scan :=
  let (tokens, rest) := inlineTokens s.rest
  Scan.newline { tokens := s.tokens ++ tokens, rest := rest }

/-- Whether the rest of the line holds at least three markers and only blanks besides. -/
def isBreakLine (marker : UInt8) (s : Bytes) : Bool :=
  let line := s.takeWhile (!isEol ·)
  line.all (fun b => b == marker || isBlank b) && 3 ≤ line.count marker

/-- Whether only blanks are left in the line. -/
def restBlank (s : Bytes) : Bool := (s.takeWhile (!isEol ·)).all isBlank

/-- An ATX marker: one to six `#` before a blank or the end of the line. -/
def headingMarker? (s : Scan) : Option Scan :=
  let n := count (· == 0x23) s.rest
  let next := (s.rest.drop n).head?
  if 6 < n ∨ next.any (fun b => !isBlank b && !isEol b) then none
  else
    let s := s.take .headingMarker n
    some (if next.any isBlank then s.take .whitespace 1 else s)

/-- A closing fence: up to three spaces, at least `n` fence characters, then only blanks. -/
def closingFence? (fence : UInt8) (n : Nat) (s : Scan) : Option Scan :=
  let indent := count (· == Bytes.space) (s.rest.take 3)
  let after := s.rest.drop indent
  let length := count (· == fence) after
  if length < n ∨ !restBlank (after.drop length) then none
  else some (((s.take .whitespace indent).take .codeFence length).run .whitespace isBlank).newline

/-- The lines of a fenced block up to and including its closing fence. -/
def fenceBody (fence : UInt8) (n fuel : Nat) (s : Scan) : Scan :=
  match fuel with
  | 0 => s
  | fuel + 1 =>
    if s.rest.isEmpty then s
    else match closingFence? fence n s with
      | some s => s
      | none => fenceBody fence n fuel (s.restOfLine .text)

def fenced? (fence : UInt8) (s : Scan) : Option Scan :=
  let n := count (· == fence) s.rest
  if n < 3 then none
  else
    let s := (s.take .codeFence n).restOfLine .codeFenceInfo
    some (fenceBody fence n s.rest.length s)

def setext? (marker : UInt8) (s : Scan) : Option Scan :=
  let n := count (· == marker) s.rest
  if n = 0 ∨ !restBlank (s.rest.drop n) then none else some (s.restOfLine .setextUnderline)

/-- A thematic break, or a bullet before a blank. -/
def bulletOrBreak? (marker : UInt8) (s : Scan) : Option Scan :=
  if isBreakLine marker s.rest then some (s.restOfLine .thematicBreak)
  else if (s.rest.drop 1).head?.any isBlank then
    some ((s.take .listBullet 1).take .whitespace 1).inline
  else none

/-- A list number `1.` or `1)` before a blank. -/
def ordered? (s : Scan) : Option Scan :=
  let n := count Bytes.isDigit s.rest
  match s.rest.drop n with
  | mark :: blank :: _ =>
    if (mark == 0x2E || mark == 0x29) && isBlank blank then
      some ((s.take .listNumber (n + 1)).take .whitespace 1).inline
    else none
  | _ => none

def blockquote (s : Scan) : Scan :=
  let s := s.take .blockquoteMarker 1
  (if s.rest.head? == some Bytes.space then s.take .whitespace 1 else s).inline

/-- The block marker that starts a line, with the rest of the line. -/
def marked? (b : UInt8) (s : Scan) : Option Scan :=
  match b with
  | 0x23 => (headingMarker? s).map Scan.inline
  | 0x3E => some (blockquote s)
  | 0x2D => bulletOrBreak? b s
  | 0x2B => bulletOrBreak? b s
  | 0x2A => bulletOrBreak? b s
  | 0x5F => if isBreakLine b s.rest then some (s.restOfLine .thematicBreak) else none
  | 0x60 => fenced? b s
  | 0x7E => fenced? b s
  | 0x3D => setext? b s
  | 0x3C => some (s.restOfLine .html)
  | _ => if Bytes.isDigit b then ordered? s else none

/-- One line, or a whole fenced block. -/
def line (src : Bytes) : Scan :=
  let s := Scan.run .whitespace isBlank { rest := src }
  match s.rest with
  | [] => s
  | b :: _ =>
    match marked? b s with
    | some s => s
    | none =>
      if b == 0x2D then (setext? b s).getD s.inline else s.inline

/-- The tokens of a text; their texts put together are the text. -/
def tokens (src : Bytes) : List (Lexeme Symbol) :=
  if src.isEmpty then []
  else
    let s := line src
    if s.rest.length < src.length then s.tokens ++ tokens s.rest else s.tokens
termination_by src.length

/-- A token with the bytes it covers. -/
structure Span where
  symbol : Symbol
  text : Bytes
  start : Nat
  deriving DecidableEq, Repr

def Span.stop (s : Span) : Nat := s.start + s.text.length

def spansFrom (start : Nat) : List (Lexeme Symbol) → List Span
  | [] => []
  | t :: ts => ⟨t.symbol, t.text, start⟩ :: spansFrom (start + t.text.length) ts

def tokenize (src : Bytes) : List Span := spansFrom 0 (tokens src)

/-- The symbol of a text that is exactly one token at the start of a line. -/
def relex? (text : Bytes) : Option Symbol :=
  match tokens text with
  | [t] => some t.symbol
  | _ => none

end LosslessTree.Markdown
