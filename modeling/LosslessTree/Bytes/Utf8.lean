import LosslessTree.Bytes.Basic

/-! UTF-8 over byte strings. A text is read as a sequence of glyphs; a byte that starts no valid
sequence is a glyph of its own and stands for U+FFFD, so the glyphs always cover the whole text. -/
namespace LosslessTree

/-- A code point together with the bytes that were read for it. -/
structure Glyph where
  point : Nat
  bytes : Bytes
  deriving DecidableEq, Repr

namespace Glyph

/-- The replacement character, which an invalid byte is read as. -/
def replacement : Nat := 0xFFFD

def ofInvalid (b : UInt8) : Glyph := ⟨replacement, [b]⟩

/-- Whether the glyph is a byte that belongs to no valid sequence. -/
def isInvalid (g : Glyph) : Bool := g.point == replacement && g.bytes.length == 1

end Glyph

namespace Utf8

def isContinuation (b : UInt8) : Bool := 0x80 ≤ b && b ≤ 0xBF

def isPair (a b : UInt8) : Bool := 0xC2 ≤ a && a ≤ 0xDF && isContinuation b

/-- A valid start of a three-byte sequence: no overlong form and no surrogate. -/
def isTriple (a b c : UInt8) : Bool :=
  0xE0 ≤ a && a ≤ 0xEF && isContinuation b && isContinuation c &&
    (a != 0xE0 || 0xA0 ≤ b) && (a != 0xED || b ≤ 0x9F)

/-- A valid four-byte sequence: no overlong form and nothing above U+10FFFF. -/
def isQuad (a b c d : UInt8) : Bool :=
  0xF0 ≤ a && a ≤ 0xF4 && isContinuation b && isContinuation c && isContinuation d &&
    (a != 0xF0 || 0x90 ≤ b) && (a != 0xF4 || b ≤ 0x8F)

def payload (b : UInt8) : Nat := b.toNat % 0x40

def decode : Bytes → List Glyph
  | [] => []
  | a :: t₁ =>
    if a < 0x80 then ⟨a.toNat, [a]⟩ :: decode t₁ else
    match t₁ with
    | [] => [.ofInvalid a]
    | b :: t₂ =>
      if isPair a b then ⟨a.toNat % 0x20 * 0x40 + payload b, [a, b]⟩ :: decode t₂ else
      match t₂ with
      | [] => .ofInvalid a :: decode [b]
      | c :: t₃ =>
        if isTriple a b c then
          ⟨a.toNat % 0x10 * 0x1000 + payload b * 0x40 + payload c, [a, b, c]⟩ :: decode t₃
        else
          match t₃ with
          | [] => .ofInvalid a :: decode [b, c]
          | d :: t₄ =>
            if isQuad a b c d then
              ⟨a.toNat % 8 * 0x40000 + payload b * 0x1000 + payload c * 0x40 + payload d,
                [a, b, c, d]⟩ :: decode t₄
            else .ofInvalid a :: decode (b :: c :: d :: t₄)

def byte (n : Nat) : UInt8 := n.toUInt8

/-- The bytes of a code point; a number that is no code point is written as U+FFFD. -/
def encode (point : Nat) : Bytes :=
  if point < 0x80 then [byte point]
  else if point < 0x800 then [byte (0xC0 + point / 0x40), byte (0x80 + point % 0x40)]
  else if (0xD800 ≤ point && point < 0xE000) || 0x110000 ≤ point then [0xEF, 0xBF, 0xBD]
  else if point < 0x10000 then
    [byte (0xE0 + point / 0x1000), byte (0x80 + point / 0x40 % 0x40), byte (0x80 + point % 0x40)]
  else
    [byte (0xF0 + point / 0x40000), byte (0x80 + point / 0x1000 % 0x40),
      byte (0x80 + point / 0x40 % 0x40), byte (0x80 + point % 0x40)]

def bytes (glyphs : List Glyph) : Bytes := glyphs.flatMap Glyph.bytes

end Utf8
end LosslessTree
