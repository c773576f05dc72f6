import LosslessTree.Language.Markdown.Line

/-! How HTML blocks begin and end. -/
namespace LosslessTree.Markdown

/-- What opened an HTML block decides where it ends: the first five end in a line with a certain
text, the last two at a blank line. -/
inductive HtmlStart where
  | rawText | comment | instruction | declaration | cdata | blockTag | completeTag
  deriving DecidableEq, Repr

namespace HtmlStart

def rawTags : List String := ["script", "pre", "style", "textarea"]

def blockTags : List String :=
  ["address", "article", "aside", "base", "basefont", "blockquote", "body", "caption", "center", "col",
    "colgroup", "dd", "details", "dialog", "dir", "div", "dl", "dt", "fieldset", "figcaption", "figure",
    "footer", "form", "frame", "frameset", "h1", "h2", "h3", "h4", "h5", "h6", "head", "header", "hr",
    "html", "iframe", "legend", "li", "link", "main", "menu", "menuitem", "meta", "nav", "noframes",
    "ol", "optgroup", "option", "p", "param", "search", "section", "summary", "table", "tbody", "td",
    "tfoot", "th", "thead", "title", "tr", "track", "ul"]

def isBlockTag (name : Bytes) : Bool := blockTags.any fun tag => Bytes.ofString tag == name

/-- The text after up to three spaces and a `<`. -/
def afterOpening? (line : Bytes) : Option Bytes :=
  let spaces := line.takeWhile (· == Bytes.space)
  match line.drop spaces.length with
  | 0x3C :: rest => if spaces.length ≤ 3 then some rest else none
  | _ => none

/-- A tag name and the text after it. -/
def tagName? (s : Bytes) : Option (Bytes × Bytes) :=
  match s with
  | b :: _ =>
    if Bytes.isAlpha b then
      some (s.takeWhile fun b => Bytes.isAlnum b || b == 0x2D,
        s.dropWhile fun b => Bytes.isAlnum b || b == 0x2D)
    else none
  | [] => none

def isLineEnd (s : Bytes) : Bool := s.isEmpty || s == [0x0A] || s == [0x0D, 0x0A]

/-- The text after a closing slash with spaces behind it, if there is one. -/
def afterSlash (s : Bytes) : Option Bytes × Bytes :=
  match s with
  | 0x2F :: rest =>
    let spaces := rest.takeWhile (· == Bytes.space)
    (some (0x2F :: spaces), rest.drop spaces.length)
  | _ => (none, s)

def isAttributeSpace (b : UInt8) : Bool := b == 0x20 || b == 0x09 || b == 0x0A || b == 0x0D

def isAttributeStart (b : UInt8) : Bool := Bytes.isAlpha b || b == 0x5F || b == 0x3A

def isAttributePart (b : UInt8) : Bool :=
  Bytes.isAlnum b || b == 0x3A || b == 0x2E || b == 0x5F || b == 0x2D

def isUnquoted (b : UInt8) : Bool :=
  0x20 < b && b != 0x22 && b != 0x27 && b != 0x3D && b != 0x3C && b != 0x3E && b != 0x60

/-- The text after an attribute value. -/
def afterValue? (s : Bytes) : Option Bytes :=
  match s with
  | b :: rest =>
    if b == 0x22 || b == 0x27 then
      match rest.dropWhile (· != b) with
      | _ :: after => some after
      | [] => none
    else if isUnquoted b then some (s.dropWhile isUnquoted)
    else none
  | [] => none

/-- The text after one attribute with the white space before it. -/
def afterAttribute? (s : Bytes) : Option Bytes :=
  let name := s.dropWhile isAttributeSpace
  if name.length = s.length ∨ !name.head?.any isAttributeStart then none
  else
    let after := name.dropWhile isAttributePart
    match after.dropWhile isAttributeSpace with
    | 0x3D :: value =>
      match afterValue? (value.dropWhile isAttributeSpace) with
      | some rest => some rest
      | none => some after
    | _ => some after

def afterAttributes (s : Bytes) (fuel : Nat) : Bytes :=
  match fuel with
  | 0 => s
  | fuel + 1 =>
    match afterAttribute? s with
    | some rest => afterAttributes rest fuel
    | none => s

/-- Whether nothing but the end of a tag and spaces is left in the line. -/
def isTagEnd (s : Bytes) : Bool :=
  let s := s.dropWhile (· == Bytes.space)
  match s with
  | 0x3E :: rest => isLineEnd (rest.dropWhile (· == Bytes.space))
  | 0x2F :: 0x3E :: rest => isLineEnd (rest.dropWhile (· == Bytes.space))
  | _ => false

/-- The name of a tag that fills the line, whether it is a closing tag, and whether it has attributes. -/
def completeTag? (s : Bytes) : Option (Bytes × Bool × Bool) :=
  let (slash, s) := afterSlash s
  match tagName? s with
  | none => none
  | some (name, rest) =>
    let after := afterAttributes rest rest.length
    if isTagEnd after then
      some (Bytes.toLower name, slash == some [0x2F], after.length != rest.length)
    else none

/-- The name of a tag that is not obviously cut off. -/
def startedTag? (s : Bytes) : Option Bytes :=
  match tagName? (afterSlash s).2 with
  | none => none
  | some (name, rest) =>
    if isLineEnd rest ∨ rest.head? = some 0x20 ∨ rest.head? = some 0x3E ∨
        Bytes.startsWith rest "/>" then
      some (Bytes.toLower name)
    else none

def isRawStart (s : Bytes) : Bool :=
  rawTags.any fun tag =>
    match Bytes.after? tag (Bytes.toLower s) with
    | none => false
    | some rest =>
      rest.isEmpty || rest.head?.any (fun b => isAttributeSpace b || b == 0x0C || b == 0x3E) ||
        Bytes.startsWith rest "/>"

def ofTag? (s : Bytes) (afterParagraph : Bool) : Option HtmlStart :=
  let byName := match startedTag? s with
    | some name => if isBlockTag name then some .blockTag else none
    | none => none
  match completeTag? s with
  | none => byName
  | some (name, isClosing, hasAttributes) =>
    if isBlockTag name then some .blockTag
    else if name != Bytes.ofString "script" && name != Bytes.ofString "style" &&
        name != Bytes.ofString "pre" && !afterParagraph && !(isClosing && hasAttributes) then
      some .completeTag
    else byName

/-- What kind of HTML block a line opens. A complete tag cannot interrupt a paragraph. -/
def ofLine? (line : Bytes) (afterParagraph : Bool) : Option HtmlStart :=
  match afterOpening? line with
  | none => none
  | some s =>
    if isRawStart s then some .rawText
    else if Bytes.startsWith s "!--" then some .comment
    else if Bytes.startsWith s "?" then some .instruction
    else match s with
      | 0x21 :: b :: _ =>
        if Bytes.isUpper b then some .declaration
        else if Bytes.startsWith s "![CDATA[" then some .cdata
        else none
      | _ => ofTag? s afterParagraph

/-- Whether a line ends the block. -/
def isClosedBy (h : HtmlStart) (line : Bytes) : Bool :=
  match h with
  | .rawText =>
    rawTags.any fun tag => Bytes.hasSub ("</" ++ tag ++ ">") (Bytes.toLower line)
  | .comment => Bytes.hasSub "-->" line
  | .instruction => Bytes.hasSub "?>" line
  | .declaration => Bytes.hasSub ">" line
  | .cdata => Bytes.hasSub "]]>" line
  | .blockTag | .completeTag => isBlankText line

/-- Whether the block ends at a blank line, which is not part of it. -/
def endsAtBlank : HtmlStart → Bool
  | .blockTag | .completeTag => true
  | _ => false

end HtmlStart
end LosslessTree.Markdown
