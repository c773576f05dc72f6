import LosslessTree.Bytes.Basic

/-! Lists between commas. An item that starts with a quote ends with one, may hold commas and line breaks,
and writes a quote twice. The list ends with its line; empty lines before it are skipped. -/
namespace LosslessTree.CommaList

/-- A position, and the line on which the list has started. -/
structure Place where
  start : Nat
  line : Nat
  column : Nat
  deriving DecidableEq, Repr

inductive ReadError where
  /-- A quote inside an item that does not start with one. -/
  | bareQuote (place : Place)
  /-- An item whose quote is not closed, or not followed by a comma. -/
  | strayQuote (place : Place)
  /-- There is no line with anything on it. -/
  | nothing
  deriving DecidableEq, Repr

def Place.text (p : Place) : Bytes :=
  let start : Bytes := if p.start = p.line then [] else "record on line " ++ Bytes.ofNat p.start ++ "; "
  start ++ "parse error on line " ++ Bytes.ofNat p.line ++ ", column " ++ Bytes.ofNat p.column

def ReadError.message : ReadError → Bytes
  | .bareQuote p => p.text ++ ": bare \" in non-quoted field"
  | .strayQuote p => p.text ++ ": extraneous or missing \" in quoted-field"
  | .nothing => "EOF"

/-- Line breaks are line feeds, and a carriage return at the very end does not count. -/
def normalize : Bytes → Bytes
  | 0x0D :: 0x0A :: rest => 0x0A :: normalize rest
  | [0x0D] => []
  | b :: rest => b :: normalize rest
  | [] => []

/-- What the reader is in the middle of. -/
inductive Mode where
  | start | plain | quoted
  /-- Behind a quote that may have ended the item. -/
  | closed
  deriving DecidableEq, Repr

/-- Reads on; `item` holds the current item, last byte first, and `items` those before it. -/
def scan (place : Place) (mode : Mode) (item : Bytes) (items : List Bytes) :
    Bytes → Except ReadError (List Bytes)
  | [] => if mode = .quoted then .error (.strayQuote place) else .ok (items ++ [item.reverse])
  | b :: rest =>
    let next := { place with column := place.column + 1 }
    match mode with
    | .quoted =>
      if b == 0x22 then scan next .closed item items rest
      else if b == 0x0A && !rest.isEmpty then
        scan { place with line := place.line + 1, column := 1 } .quoted (b :: item) items rest
      else scan next .quoted (b :: item) items rest
    | .closed =>
      if b == 0x22 then scan next .quoted (b :: item) items rest
      else if b == 0x2C then scan next .start [] (items ++ [item.reverse]) rest
      else if b == 0x0A then .ok (items ++ [item.reverse])
      else .error (.strayQuote { place with column := place.column - 1 })
    | .start | .plain =>
      if b == 0x22 then
        if mode = .start then scan next .quoted [] items rest else .error (.bareQuote place)
      else if b == 0x2C then scan next .start [] (items ++ [item.reverse]) rest
      else if b == 0x0A then .ok (items ++ [item.reverse])
      else scan next .plain (b :: item) items rest

/-- The items of a text; an empty text has none. -/
def read (text : Bytes) : Except ReadError (List Bytes) :=
  if text.isEmpty then .ok []
  else
    let lines := normalize text
    let list := lines.dropWhile (· == 0x0A)
    if list.isEmpty then .error .nothing
    else
      let start := 1 + (lines.length - list.length)
      scan ⟨start, start, 1⟩ .start [] [] list

end LosslessTree.CommaList
