/-! Byte strings. Source texts, messages and printed output are sequences of bytes, so that text
which is not valid UTF-8 passes through unchanged. -/
namespace LosslessTree

abbrev Bytes := List UInt8

namespace Bytes

def ofString (s : String) : Bytes := s.toUTF8.data.toList

instance : Coe String Bytes := ⟨ofString⟩

/-- The text as a string, if the bytes are valid UTF-8. -/
def toString? (b : Bytes) : Option String := String.fromUTF8? ⟨b.toArray⟩

def ofNat (n : Nat) : Bytes := ofString n.repr

def ofInt : Int → Bytes
  | .ofNat n => ofNat n
  | .negSucc n => 0x2D :: ofNat (n + 1)

def newline : UInt8 := 0x0A
def carriageReturn : UInt8 := 0x0D
def space : UInt8 := 0x20
def tab : UInt8 := 0x09

def isDigit (b : UInt8) : Bool := 0x30 ≤ b && b ≤ 0x39
def isLower (b : UInt8) : Bool := 0x61 ≤ b && b ≤ 0x7A
def isUpper (b : UInt8) : Bool := 0x41 ≤ b && b ≤ 0x5A
def isAlpha (b : UInt8) : Bool := isLower b || isUpper b
def isAlnum (b : UInt8) : Bool := isAlpha b || isDigit b

def toLowerByte (b : UInt8) : UInt8 := if isUpper b then b + 0x20 else b

/-- The ASCII letters in lower case, all other bytes unchanged. -/
def toLower (b : Bytes) : Bytes := b.map toLowerByte

def startsWith (b start : Bytes) : Bool := start.isPrefixOf b
def endsWith (b final : Bytes) : Bool := final.isSuffixOf b

/-- The rest of the text after a given start. -/
def after? (start b : Bytes) : Option Bytes :=
  if start.isPrefixOf b then some (b.drop start.length) else none

def trimLeft (p : UInt8 → Bool) (b : Bytes) : Bytes := b.dropWhile p
def trimRight (p : UInt8 → Bool) (b : Bytes) : Bytes := (b.reverse.dropWhile p).reverse
def trim (p : UInt8 → Bool) (b : Bytes) : Bytes := trimRight p (trimLeft p b)

/-- The pieces between the occurrences of a separator byte: always at least one. -/
def split (sep : UInt8) : Bytes → List Bytes
  | [] => [[]]
  | b :: rest =>
    let pieces := split sep rest
    if b == sep then [] :: pieces
    else (b :: pieces.headD []) :: pieces.tail

def join (sep : Bytes) : List Bytes → Bytes
  | [] => []
  | [piece] => piece
  | piece :: rest => piece ++ sep ++ join sep rest

def hasSub (needle : Bytes) : Bytes → Bool
  | [] => needle.isEmpty
  | b :: rest => needle.isPrefixOf (b :: rest) || hasSub needle rest

/-- Lexicographic comparison of byte strings. -/
def lt : Bytes → Bytes → Bool
  | _, [] => false
  | [], _ :: _ => true
  | a :: as, b :: bs => a < b || (a == b && lt as bs)

def le (a b : Bytes) : Bool := !lt b a

/-- Puts a text in its place among sorted ones. -/
def insertSorted (text : Bytes) : List Bytes → List Bytes
  | [] => [text]
  | t :: rest => if le text t then text :: t :: rest else t :: insertSorted text rest

/-- Sorted in byte order. Insertion recurses on the texts themselves, so that what lists a directory can be decided. -/
def sort (texts : List Bytes) : List Bytes := texts.foldr insertSorted []

theorem perm_insertSorted (text : Bytes) (texts : List Bytes) : (insertSorted text texts).Perm (text :: texts) := by
  induction texts with
  | nil => exact .rfl
  | cons t rest ih =>
    rw [insertSorted]
    split
    · exact .rfl
    · exact (ih.cons t).trans (.swap text t rest)

theorem perm_sort (texts : List Bytes) : (sort texts).Perm texts := by
  induction texts with
  | nil => exact .rfl
  | cons text texts ih => exact (perm_insertSorted text (sort texts)).trans (ih.cons text)

theorem mem_sort {text : Bytes} {texts : List Bytes} : text ∈ sort texts ↔ text ∈ texts := (perm_sort texts).mem_iff

def times (n : Nat) (b : Bytes) : Bytes := (List.replicate n b).flatten

def hexDigit (n : Nat) : UInt8 :=
  if n < 10 then (0x30 + n).toUInt8 else (0x57 + n).toUInt8

/-- The lowest `width` hexadecimal digits of a number, in lower case. -/
def hex (width n : Nat) : Bytes :=
  match width with
  | 0 => []
  | w + 1 => hex w (n / 16) ++ [hexDigit (n % 16)]

end Bytes
end LosslessTree
