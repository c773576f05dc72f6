import LosslessTree.Bytes.Utf8
import LosslessTree.Tree.Basic
import LosslessTree.Unicode.Letter
import LosslessTree.Unicode.Ranges

/-! Lexemes: pieces of source text with the symbol they were recognized as. -/
namespace LosslessTree

/-- The symbols of a language: each is a kind of tree element, and some carry no meaning. -/
class Symbols (σ : Type) where
  kind : σ → Kind
  isTrivia : σ → Bool

structure Lexeme (σ : Type) where
  symbol : σ
  text : Bytes
  deriving DecidableEq, Repr

namespace Lexeme

/-- Cuts a text into lexemes. `scan` is given the next glyph and those after it, and says what lexeme
starts there and how many of the later glyphs belong to it. -/
def cut {σ : Type} (scan : Glyph → List Glyph → σ × Nat) (glyphs : List Glyph) : List (Lexeme σ) :=
  match glyphs with
  | [] => []
  | g :: rest =>
    let (symbol, more) := scan g rest
    ⟨symbol, Utf8.bytes (g :: rest.take more)⟩ :: cut scan (rest.drop more)
termination_by glyphs.length
decreasing_by simp only [List.length_cons, List.length_drop]; omega

end Lexeme

/-- How many glyphs at the start pass a test. -/
def countWhile (test : Nat → Bool) (glyphs : List Glyph) : Nat :=
  (glyphs.takeWhile fun g => test g.point).length

def isNameStart (point : Nat) : Bool := point == 0x5F || Unicode.isLetter point

def isNamePart (point : Nat) : Bool := isNameStart point || Unicode.isDigit point

end LosslessTree
