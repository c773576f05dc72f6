import LosslessTree.Text.Quoted
import LosslessTree.Yaml.Resolve
import LosslessTree.Yaml.Place

/-! Writing strings as YAML scalars. A string is written plainly if it reads back as the same string;
otherwise it is quoted, or, if it has several lines, written as a literal block. -/
namespace LosslessTree.Yaml.Writer

/-- Words that older readers take for truth values. -/
def oldWords : List String :=
  ["y", "Y", "yes", "Yes", "YES", "on", "On", "ON", "n", "N", "no", "No", "NO", "off", "Off", "OFF"]

/-- One or more `:` groups of at most two digits below sixty. -/
def sexagesimalTail (fuel : Nat) (text : Bytes) : Bool :=
  match fuel with
  | 0 => false
  | fuel + 1 =>
    match text with
    | 0x3A :: rest =>
      let digits := rest.takeWhile Bytes.isDigit
      let after := rest.drop digits.length
      let ok := match digits with
        | [_] => true
        | [a, _] => a < 0x36
        | _ => false
      ok && match after with
        | [] => true
        | 0x2E :: rest => rest.all fun b => Bytes.isDigit b || b == 0x5F
        | _ => sexagesimalTail fuel after
    | _ => false

/-- Numbers to the base sixty, which older readers know. -/
def isSexagesimal (text : Bytes) : Bool :=
  let text := match text with
    | c :: rest => if c == 0x2B || c == 0x2D then rest else text
    | [] => []
  text.head?.any Bytes.isDigit &&
    sexagesimalTail text.length (text.dropWhile fun b => Bytes.isDigit b || b == 0x5F)

/-- Whether a reader takes the unquoted text for the same string. -/
def readsAsString (text : Bytes) : Bool :=
  (resolve text true).tag == Tag.str && !isSexagesimal text &&
    !(oldWords.map Bytes.ofString).contains text

/-- Characters that can be written as they are. -/
def isPrintable (c : Nat) : Bool :=
  c == 0x0A || (0x20 ≤ c && c ≤ 0x7E) || (0xA0 ≤ c && c ≤ 0xD7FF) ||
    (0xE000 ≤ c && c ≤ 0xFFFD && c != 0xFEFF)

def startIndicators : List Nat :=
  [0x23, 0x2C, 0x5B, 0x5D, 0x7B, 0x7D, 0x26, 0x2A, 0x21, 0x7C, 0x3E, 0x27, 0x22, 0x25, 0x40, 0x60]

/-- Whether a blank or the end follows. -/
def blankFollows (rest : List Nat) : Bool := rest.head?.all isBlank

/-- Whether characters after the first one have a meaning outside quotes. -/
def hasIndicator (afterBlank : Bool) : List Nat → Bool
  | [] => false
  | c :: rest =>
    (c == 0x3A && blankFollows rest) || (c == 0x23 && afterBlank) ||
      hasIndicator (isBlank c || isBreak c) rest

def startsWithIndicator (cs : List Nat) : Bool :=
  match cs with
  | [] => false
  | c :: rest =>
    cs.take 3 == [0x2D, 0x2D, 0x2D] || cs.take 3 == [0x2E, 0x2E, 0x2E] || startIndicators.contains c ||
      ((c == 0x3F || c == 0x3A || c == 0x2D) && blankFollows rest) ||
      hasIndicator (isBlank c || isBreak c) rest

/-- Whether a space is directly followed by something that passes a test. -/
def hasPair (first second : Nat → Bool) : List Nat → Bool
  | a :: b :: rest => (first a && second b) || hasPair first second (b :: rest)
  | _ => false

/-- What a text allows. -/
structure Analysis where
  plain : Bool
  single : Bool
  block : Bool

def analyze (cs : List Nat) : Analysis :=
  if cs.isEmpty then ⟨true, true, false⟩
  else
    let edge (test : Nat → Bool) : Bool := cs.head?.any test || cs.getLast?.any test
    let special := cs.any fun c => c != 0x09 && !isPrintable c
    let tabs := cs.contains 0x09
    let spaceBreak := hasPair isSpace isBreak cs
    let breakSpace := hasPair isBreak isSpace cs
    let quotable := !breakSpace && !spaceBreak && !tabs && !special
    { plain := quotable && !edge isSpace && !cs.any isBreak && !startsWithIndicator cs
      single := quotable
      block := !cs.getLast?.any isSpace && !spaceBreak && !special }

def escapeLetter? : Nat → Option UInt8
  | 0x00 => some 0x30
  | 0x07 => some 0x61
  | 0x08 => some 0x62
  | 0x09 => some 0x74
  | 0x0A => some 0x6E
  | 0x0B => some 0x76
  | 0x0C => some 0x66
  | 0x0D => some 0x72
  | 0x1B => some 0x65
  | 0x22 => some 0x22
  | 0x5C => some 0x5C
  | 0x85 => some 0x4E
  | 0xA0 => some 0x5F
  | 0x2028 => some 0x4C
  | 0x2029 => some 0x50
  | _ => none

def upper (b : UInt8) : UInt8 := if Bytes.isLower b then b - 0x20 else b

def doubleQuotedCharacter (c : Nat) : Bytes :=
  if !isPrintable c || isBreak c || c == 0x22 || c == 0x5C then
    match escapeLetter? c with
    | some letter => [0x5C, letter]
    | none =>
      if c ≤ 0xFF then "\\x" ++ (Bytes.hex 2 c).map upper
      else if c ≤ 0xFFFF then "\\u" ++ (Bytes.hex 4 c).map upper
      else "\\U" ++ (Bytes.hex 8 c).map upper
  else Utf8.encode c

def doubleQuoted (cs : List Nat) : Bytes := 0x22 :: (cs.flatMap doubleQuotedCharacter ++ [0x22])

/-- The characters between single quotes; a line that starts within them is indented. -/
def singleQuotedFrom (indent : Nat) (afterBreak : Bool) : List Nat → Bytes
  | [] => [0x27]
  | c :: rest =>
    if isBreak c then Utf8.encode c ++ singleQuotedFrom indent true rest
    else
      (if afterBreak then List.replicate indent 0x20 else []) ++
        (if c == 0x27 then [0x27, 0x27] else Utf8.encode c) ++ singleQuotedFrom indent false rest

def singleQuoted (indent : Nat) (cs : List Nat) : Bytes := 0x27 :: singleQuotedFrom indent false cs

/-- The lines of a literal block. `started` tells whether the line of its head has ended, `fresh`
whether a line is to be indented. -/
def literalFrom (indent : Nat) (started fresh : Bool) : List Nat → Bytes
  | [] => []
  | c :: rest =>
    if isBreak c then Utf8.encode c ++ literalFrom indent true true rest
    else
      (if fresh then (if started then [] else [0x0A]) ++ List.replicate indent 0x20 else []) ++
        Utf8.encode c ++ literalFrom indent false false rest

/-- How the line breaks at the end are to be read. -/
def chompingMark (cs : List Nat) : Bytes :=
  match cs.reverse with
  | a :: b :: _ => if !isBreak a then "-" else if isBreak b then "+" else []
  | [a] => if isBreak a then "+" else "-"
  | [] => "-"

def literal (indent : Nat) (cs : List Nat) : Bytes :=
  let hint : Bytes := if cs.head?.any fun c => isSpace c || isBreak c then "2" else []
  "|" ++ hint ++ chompingMark cs ++ literalFrom indent false true cs

/-- A string and the end of its line; further lines are indented as told. -/
def string (indent : Nat) (text : Bytes) : Bytes :=
  let cs := (Utf8.decode text).map Glyph.point
  let a := analyze cs
  let body :=
    if cs.contains 0x0A then if a.block then literal indent cs else doubleQuoted cs
    else if !readsAsString text then doubleQuoted cs
    else if a.plain then text
    else if a.single then singleQuoted indent cs
    else doubleQuoted cs
  if body.getLast? == some 0x0A then body else body ++ [0x0A]

end LosslessTree.Yaml.Writer
