import LosslessTree.Text.CommaList
import LosslessTree.Text.Integer
import LosslessTree.Text.Quoted

/-! Flags: what they are called, and how their values are read. -/
namespace LosslessTree.Command

inductive FlagKind where
  | bool | text | int
  /-- Items between commas; giving the flag again adds to them. -/
  | list
  deriving DecidableEq, Repr

/-- The word that stands for a value. A truth value has none, for it need not be given. -/
def FlagKind.valueWord : FlagKind → String
  | .bool => ""
  | .text => "string"
  | .int => "int"
  | .list => "strings"

inductive FlagValue where
  | bool (b : Bool)
  | text (text : Bytes)
  | int (n : Int)
  | list (items : List Bytes)
  deriving DecidableEq, Repr

structure Flag where
  name : String
  /-- The letter it goes by after a single dash. -/
  letter : Option UInt8 := none
  kind : FlagKind
  usage : String
  /-- A value other than nothing that it has from the start. -/
  initially : String := ""
  deriving DecidableEq, Repr

namespace Flag

/-- A flag that may stand without a value. -/
def isSwitch (f : Flag) : Bool := f.kind == .bool

/-- What a switch without a value is set to. -/
def switchText : Bytes := "true"

/-- The name with its dashes, and the letter if there is one. -/
def shownName (f : Flag) : Bytes :=
  match f.letter with
  | some letter => [0x2D, letter] ++ ", --" ++ Bytes.ofString f.name
  | none => "--" ++ Bytes.ofString f.name

def isNamed (name : Bytes) (f : Flag) : Bool := Bytes.ofString f.name == name

end Flag

inductive FlagError where
  | badSyntax (argument : Bytes)
  | unknown (name : Bytes)
  /-- A letter no flag goes by, in a group of letters. -/
  | unknownLetter (letter : UInt8) (group : Bytes)
  | noValue (name : String)
  | noValueForLetter (letter : UInt8) (group : Bytes)
  | invalidValue (flag : Flag) (value reason : Bytes)
  deriving DecidableEq, Repr

namespace FlagError

/-- A letter between quotes. Of a byte above ASCII only the first byte of its encoding as a code point is
shown, again as a code point. -/
def quotedLetter (letter : UInt8) : Bytes :=
  let point := ((Utf8.encode letter.toNat).headD 0).toNat
  let body : Bytes :=
    if point == 0x27 then "\\'"
    else if point == 0x22 then "\""
    else Quoted.glyph ⟨point, Utf8.encode point⟩
  [0x27] ++ body ++ [0x27]

def message : FlagError → Bytes
  | .badSyntax argument => "bad flag syntax: " ++ argument
  | .unknown name => "unknown flag: --" ++ name
  | .unknownLetter letter group =>
    "unknown shorthand flag: " ++ quotedLetter letter ++ " in -" ++ group
  | .noValue name => "flag needs an argument: --" ++ Bytes.ofString name
  | .noValueForLetter letter group =>
    "flag needs an argument: " ++ quotedLetter letter ++ " in -" ++ group
  | .invalidValue flag value reason =>
    "invalid argument " ++ Quoted.encode value ++ " for " ++ Quoted.encode flag.shownName ++ " flag: " ++
      reason

end FlagError

namespace Flag

/-- Why a text is no number or truth value. -/
def numberReason (reader : String) (value : Bytes) (problem : String) : Bytes :=
  "strconv." ++ Bytes.ofString reader ++ ": parsing " ++ Quoted.encode value ++ ": " ++
    Bytes.ofString problem

def read (f : Flag) (value : Bytes) : Except FlagError FlagValue :=
  match f.kind with
  | .text => .ok (.text value)
  | .bool => match Text.bool? value with
    | some b => .ok (.bool b)
    | none => .error (.invalidValue f value (numberReason "ParseBool" value "invalid syntax"))
  | .int => match IntegerText.read value with
    | .ok n => .ok (.int n)
    | .error e => .error (.invalidValue f value (numberReason "ParseInt" value e.message))
  | .list => match CommaList.read value with
    | .ok items => .ok (.list items)
    | .error e => .error (.invalidValue f value e.message)

end Flag
end LosslessTree.Command
