import LosslessTree.Language.Lexeme

/-! The symbols of struct declarations: tokens and the nodes above them. -/
namespace LosslessTree.Decl

inductive Symbol where
  | whitespace | comment | structKeyword | ident | leftBrace | rightBrace | colon | comma | unknown
  | sourceFile | struct | field | name | type | error
  deriving DecidableEq, Repr

namespace Symbol

def kind : Symbol → Kind
  | whitespace => 0
  | comment => 1
  | structKeyword => 2
  | ident => 3
  | leftBrace => 4
  | rightBrace => 5
  | colon => 6
  | comma => 7
  | unknown => 8
  | sourceFile => 9
  | struct => 10
  | field => 11
  | name => 12
  | type => 13
  | error => 14

def isTrivia (s : Symbol) : Bool := s == whitespace || s == comment

instance : Symbols Symbol := ⟨kind, isTrivia⟩

end Symbol

def isTriviaKind (k : Kind) : Bool := k == Symbol.whitespace.kind || k == Symbol.comment.kind

def kindNames : KindNames :=
  ["WHITESPACE", "COMMENT", "STRUCT_KW", "IDENT", "L_BRACE", "R_BRACE", "COLON", "COMMA", "UNKNOWN",
    "SOURCE_FILE", "STRUCT", "FIELD", "NAME", "TYPE", "ERROR"]

/-! Lexing struct declarations. Every byte ends up in exactly one lexeme. -/

def keyword : Bytes := "struct"

def punctuation : Nat → Symbol
  | 0x7B => .leftBrace
  | 0x7D => .rightBrace
  | 0x3A => .colon
  | 0x2C => .comma
  | _ => .unknown

/-- The lexeme at a glyph: white space, a comment up to the end of the line, a name or keyword, or a
single glyph. -/
def scan (g : Glyph) (rest : List Glyph) : Symbol × Nat :=
  if Unicode.isSpace g.point then (.whitespace, countWhile Unicode.isSpace rest)
  else if g.point == 0x2F && rest.head?.any (·.point == 0x2F) then
    (.comment, countWhile (· != 0x0A) rest)
  else if isNameStart g.point then
    let more := countWhile isNamePart rest
    if Utf8.bytes (g :: rest.take more) = keyword then (.structKeyword, more) else (.ident, more)
  else (punctuation g.point, 0)

def lex (src : Bytes) : List (Lexeme Symbol) := Lexeme.cut scan (Utf8.decode src)

/-- The symbol of a text that is exactly one lexeme. -/
def relex? (text : Bytes) : Option Symbol :=
  match lex text with
  | [lexeme] => some lexeme.symbol
  | _ => none

end LosslessTree.Decl
