import LosslessTree.Bytes.Utf8
import LosslessTree.Unicode.Graphic

/-! Quoted text: printable code points stand for themselves, everything else is escaped, so a quoted
text is one line of valid UTF-8. -/
namespace LosslessTree.Quoted

/-- The letter after the backslash for a control character that has one. -/
def escapeLetter? : Nat → Option UInt8
  | 0x07 => some 0x61
  | 0x08 => some 0x62
  | 0x09 => some 0x74
  | 0x0A => some 0x6E
  | 0x0B => some 0x76
  | 0x0C => some 0x66
  | 0x0D => some 0x72
  | _ => none

/-- An invalid byte is written as two hexadecimal digits; the replacement character itself is
printable and so stays apart from it. -/
def glyph (g : Glyph) : Bytes :=
  if g.isInvalid then "\\x" ++ Bytes.hex 2 ((g.bytes.headD 0).toNat)
  else if g.point == 0x22 || g.point == 0x5C then 0x5C :: g.bytes
  else if Unicode.isPrintable g.point then g.bytes
  else match escapeLetter? g.point with
    | some letter => [0x5C, letter]
    | none =>
      if g.point < 0x80 then "\\x" ++ Bytes.hex 2 g.point
      else if g.point < 0x10000 then "\\u" ++ Bytes.hex 4 g.point
      else "\\U" ++ Bytes.hex 8 g.point

/-- The text between double quotes. -/
def encode (text : Bytes) : Bytes :=
  0x22 :: ((Utf8.decode text).flatMap glyph ++ [0x22])

/-- Whether a glyph can stand between backquotes, where nothing is escaped. -/
def isRaw (g : Glyph) : Bool :=
  !g.isInvalid && g.point != 0xFEFF && g.point != 0x60 && g.point != 0x7F &&
    (0x20 ≤ g.point || g.point == 0x09)

/-- The text between backquotes if that is possible, else between double quotes. -/
def encodeRaw (text : Bytes) : Bytes :=
  if (Utf8.decode text).all isRaw then [0x60] ++ text ++ [0x60] else encode text

end LosslessTree.Quoted
