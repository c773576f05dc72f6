import LosslessTree.Language.Lexeme

/-! The symbols of Markdown: tokens and block nodes. -/
namespace LosslessTree.Markdown

inductive Symbol where
  | text | whitespace | newline | headingMarker | setextUnderline | listBullet | listNumber
  | blockquoteMarker | codeFence | codeFenceInfo | emphasisMarker | linkOpen | linkClose | parenOpen
  | parenClose | imageMarker | backtick | escapedChar | html | thematicBreak
  | document | heading | paragraph | blockquote | list | listItem | codeBlock | fencedCode | htmlBlock
  | table
  deriving DecidableEq, Repr

namespace Symbol

def kind : Symbol → Kind
  | text => 0
  | whitespace => 1
  | newline => 2
  | headingMarker => 3
  | setextUnderline => 4
  | listBullet => 5
  | listNumber => 6
  | blockquoteMarker => 7
  | codeFence => 8
  | codeFenceInfo => 9
  | emphasisMarker => 10
  | linkOpen => 11
  | linkClose => 12
  | parenOpen => 13
  | parenClose => 14
  | imageMarker => 15
  | backtick => 16
  | escapedChar => 17
  | html => 18
  | thematicBreak => 19
  | document => 20
  | heading => 21
  | paragraph => 22
  | blockquote => 23
  | list => 24
  | listItem => 25
  | codeBlock => 26
  | fencedCode => 27
  | htmlBlock => 28
  | table => 29

end Symbol

def kindNames : KindNames :=
  ["TEXT", "WHITESPACE", "NEWLINE", "HEADING_MARKER", "SETEXT_UNDERLINE", "LIST_BULLET", "LIST_NUMBER",
    "BLOCKQUOTE_MARKER", "CODE_FENCE", "CODE_FENCE_INFO", "EMPHASIS_MARKER", "LINK_OPEN", "LINK_CLOSE",
    "PAREN_OPEN", "PAREN_CLOSE", "IMAGE_MARKER", "BACKTICK", "ESCAPED_CHAR", "HTML", "THEMATIC_BREAK",
    "DOCUMENT", "HEADING", "PARAGRAPH", "BLOCKQUOTE", "LIST", "LIST_ITEM", "CODE_BLOCK", "FENCED_CODE",
    "HTML_BLOCK", "TABLE"]

end LosslessTree.Markdown
