import LosslessTree.Bytes.Utf8

/-! The syntax of file patterns: runs `*`, single characters `?`, escapes and character classes. A
pattern is checked piece by piece, where a `*` outside a class ends a piece. -/
namespace LosslessTree.Pattern

/-- The pieces between the runs. -/
def pieces (inClass : Bool) : Bytes → List Bytes
  | [] => [[]]
  | 0x5C :: b :: rest =>
    let found := pieces inClass rest
    (0x5C :: b :: found.headD []) :: found.tail
  | b :: rest =>
    if b == 0x2A && !inClass then [] :: pieces false rest
    else
      let found := pieces (if b == 0x5B then true else if b == 0x5D then false else inClass) rest
      (b :: found.headD []) :: found.tail

/-- What follows a valid glyph, which must not be the end. -/
def afterGlyph? (text : Bytes) : Option Bytes :=
  match Utf8.decode (text.take 4) with
  | [] => none
  | g :: _ =>
    let rest := text.drop g.bytes.length
    if g.isInvalid || rest.isEmpty then none else some rest

/-- What follows a character of a class. -/
def afterCharacter? : Bytes → Option Bytes
  | [] => none
  | b :: rest =>
    if b == 0x2D || b == 0x5D then none
    else if b == 0x5C then afterGlyph? rest
    else afterGlyph? (b :: rest)

/-- What follows a member of a class: a character, or two of them with a dash between. -/
def afterMember? (text : Bytes) : Option Bytes := do
  match ← afterCharacter? text with
  | 0x2D :: rest => afterCharacter? rest
  | rest => some rest

/-- What follows a class of which `first` tells whether a member is still needed. -/
def afterClass? (fuel : Nat) (first : Bool) (text : Bytes) : Option Bytes :=
  match fuel with
  | 0 => none
  | fuel + 1 =>
    if text.head? == some 0x5D && !first then some (text.drop 1)
    else (afterMember? text).bind (afterClass? fuel false)

def isPieceWellFormed (fuel : Nat) (piece : Bytes) : Bool :=
  match fuel, piece with
  | _, [] => true
  | 0, _ => false
  | fuel + 1, 0x5B :: rest =>
    let members := if rest.head? == some 0x5E then rest.drop 1 else rest
    match afterClass? (members.length + 1) true members with
    | some rest => isPieceWellFormed fuel rest
    | none => false
  | fuel + 1, 0x5C :: rest => !rest.isEmpty && isPieceWellFormed fuel (rest.drop 1)
  | fuel + 1, _ :: rest => isPieceWellFormed fuel rest

def isWellFormed (pattern : Bytes) : Bool :=
  (pieces false pattern).all fun piece => isPieceWellFormed piece.length piece

end LosslessTree.Pattern
