import LosslessTree.Bytes.Utf8
import LosslessTree.Unicode.Ranges

/-! Trimming and reading small texts. -/
namespace LosslessTree.Text

/-- Without white space around it. -/
def trimSpace (text : Bytes) : Bytes :=
  let isSpace (g : Glyph) : Bool := Unicode.isSpace g.point
  Utf8.bytes (((Utf8.decode text).dropWhile isSpace).reverse.dropWhile isSpace).reverse

def decimal (digits : Bytes) : Nat := digits.foldl (fun n b => n * 10 + (b - 0x30).toNat) 0

/-- Whether a number fits into 64 bits with a sign. -/
def isWord (n : Int) : Bool := -(Nat.pow 2 63 : Int) ≤ n && n < Nat.pow 2 63

/-- A decimal number with an optional sign that fits into 64 bits. -/
def integer? (text : Bytes) : Option Int :=
  let (negative, digits) := match text with
    | 0x2B :: rest => (false, rest)
    | 0x2D :: rest => (true, rest)
    | _ => (false, text)
  if digits.isEmpty || !digits.all Bytes.isDigit then none
  else
    let n : Int := if negative then -(decimal digits : Int) else decimal digits
    if isWord n then some n else none

/-- The spellings of truth values. -/
def bool? (text : Bytes) : Option Bool :=
  if (["1", "t", "T", "true", "TRUE", "True"].map Bytes.ofString).contains text then some true
  else if (["0", "f", "F", "false", "FALSE", "False"].map Bytes.ofString).contains text then some false
  else none

end LosslessTree.Text
