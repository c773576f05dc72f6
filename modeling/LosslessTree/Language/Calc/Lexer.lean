import LosslessTree.Language.Lexeme

/-! The symbols of arithmetic expressions: tokens and the nodes above them. -/
namespace LosslessTree.Calc

inductive Symbol where
  | whitespace | number | ident | plus | minus | star | slash | leftParen | rightParen | unknown
  | root | binary | signed | parens | error
  deriving DecidableEq, Repr

namespace Symbol

/-- All symbols, each at the position of its kind. -/
def all : List Symbol :=
  [whitespace, number, ident, plus, minus, star, slash, leftParen, rightParen, unknown,
    root, binary, signed, parens, error]

def kind : Symbol → Kind
  | whitespace => 0
  | number => 1
  | ident => 2
  | plus => 3
  | minus => 4
  | star => 5
  | slash => 6
  | leftParen => 7
  | rightParen => 8
  | unknown => 9
  | root => 10
  | binary => 11
  | signed => 12
  | parens => 13
  | error => 14

def ofKind? (k : Kind) : Option Symbol := all[k]?

def isTrivia (s : Symbol) : Bool := s == whitespace

instance : Symbols Symbol := ⟨kind, isTrivia⟩

/-- What can stand as an operand in a tree. -/
def isOperand : Symbol → Bool
  | number | ident | binary | signed | parens | error => true
  | _ => false

def isOperator : Symbol → Bool
  | plus | minus | star | slash => true
  | _ => false

end Symbol

def kindNames : KindNames :=
  ["WHITESPACE", "NUMBER", "IDENT", "PLUS", "MINUS", "STAR", "SLASH", "L_PAREN", "R_PAREN", "UNKNOWN",
    "ROOT", "BIN_EXPR", "PREFIX_EXPR", "PAREN_EXPR", "ERROR"]

/-! Lexing arithmetic expressions. Every byte ends up in exactly one lexeme. -/

def isDigit (point : Nat) : Bool := 0x30 ≤ point && point ≤ 0x39

def punctuation : Nat → Symbol
  | 0x2B => .plus
  | 0x2D => .minus
  | 0x2A => .star
  | 0x2F => .slash
  | 0x28 => .leftParen
  | 0x29 => .rightParen
  | _ => .unknown

/-- The lexeme at a glyph: white space, a number with at most one decimal point, a name, or a single
glyph. -/
def scan (g : Glyph) (rest : List Glyph) : Symbol × Nat :=
  if Unicode.isSpace g.point then (.whitespace, countWhile Unicode.isSpace rest)
  else if isDigit g.point then
    let whole := countWhile isDigit rest
    match rest.drop whole with
    | point :: fraction =>
      if point.point == 0x2E then (.number, whole + 1 + countWhile isDigit fraction)
      else (.number, whole)
    | [] => (.number, whole)
  else if isNameStart g.point then (.ident, countWhile isNamePart rest)
  else (punctuation g.point, 0)

def lex (src : Bytes) : List (Lexeme Symbol) := Lexeme.cut scan (Utf8.decode src)

/-- The symbol of a text that is exactly one lexeme. -/
def relex? (text : Bytes) : Option Symbol :=
  match lex text with
  | [lexeme] => some lexeme.symbol
  | _ => none

end LosslessTree.Calc
