import LosslessTree.Number.Decimal
import LosslessTree.Number.FloatText

/-! The types of plain scalars: a text that reads as a number, a truth value, nothing or a point in time
is not a string. -/
namespace LosslessTree.Yaml

namespace Tag

def str : Bytes := "!!str"
def bool : Bytes := "!!bool"
def int : Bytes := "!!int"
def float : Bytes := "!!float"
def null : Bytes := "!!null"
def timestamp : Bytes := "!!timestamp"
def binary : Bytes := "!!binary"
def merge : Bytes := "!!merge"
def seq : Bytes := "!!seq"
def map : Bytes := "!!map"

/-- The long form of the tags that begin with two exclamation marks. -/
def standard : Bytes := "tag:yaml.org,2002:"

def short (tag : Bytes) : Bytes :=
  match Bytes.after? standard tag with
  | some rest => "!!" ++ rest
  | none => tag

end Tag

inductive Value where
  | null
  | bool (b : Bool)
  | int (n : Int)
  | float (bits : UInt64)
  | timestamp
  | string (text : Bytes)
  deriving DecidableEq, Repr

def Value.tag : Value → Bytes
  | .null => Tag.null
  | .bool _ => Tag.bool
  | .int _ => Tag.int
  | .float _ => Tag.float
  | .timestamp => Tag.timestamp
  | .string _ => Tag.str

/-! Points in time: a date, or a date and a time. -/

/-- A number of one digit or two, if it is in a range. -/
def shortNumber? (least most : Nat) (text : Bytes) : Option (Nat × Bytes) :=
  let digits := text.takeWhile Bytes.isDigit |>.take 2
  let n := digits.foldl (fun n b => n * 10 + (b - 0x30).toNat) 0
  if digits.isEmpty || n < least || most < n then none else some (n, text.drop digits.length)

def expect? (b : UInt8) (text : Bytes) : Option Bytes :=
  match text with
  | c :: rest => if c == b then some rest else none
  | [] => none

def isLeap (year : Nat) : Bool := year % 4 == 0 && (year % 100 != 0 || year % 400 == 0)

def daysIn (year month : Nat) : Nat :=
  if month == 2 then (if isLeap year then 29 else 28)
  else if month == 4 || month == 6 || month == 9 || month == 11 then 30 else 31

/-- Digits of a second after a point or comma; without digits it is no fraction. -/
def skipFraction (text : Bytes) : Bytes :=
  match text with
  | p :: rest =>
    if (p == 0x2E || p == 0x2C) && rest.head?.any Bytes.isDigit then rest.dropWhile Bytes.isDigit else text
  | [] => []

/-- Two digits in a range. -/
def pairNumber? (most : Nat) (text : Bytes) : Option Bytes :=
  match text with
  | a :: b :: rest =>
    if Bytes.isDigit a && Bytes.isDigit b && (a - 0x30).toNat * 10 + (b - 0x30).toNat ≤ most then
      some rest
    else none
  | _ => none

/-- `Z` or a signed distance in hours and minutes. -/
def zone? (text : Bytes) : Option Bytes :=
  match text with
  | 0x5A :: rest => some rest
  | sign :: rest =>
    if sign == 0x2B || sign == 0x2D then do
      let rest ← pairNumber? 24 rest
      let rest ← expect? 0x3A rest
      pairNumber? 60 rest
    else none
  | [] => none

/-- Hours, minutes and seconds with an optional fraction. -/
def clock? (text : Bytes) : Option Bytes := do
  let (_, rest) ← shortNumber? 0 23 text
  let rest ← expect? 0x3A rest
  let (_, rest) ← shortNumber? 0 59 rest
  let rest ← expect? 0x3A rest
  let (_, rest) ← shortNumber? 0 59 rest
  some (skipFraction rest)

def isTimestamp (text : Bytes) : Bool :=
  let year := text.takeWhile Bytes.isDigit
  if year.length ≠ 4 then false
  else
    let date : Option Bytes := do
      let rest ← expect? 0x2D (text.drop 4)
      let (month, rest) ← shortNumber? 1 12 rest
      let rest ← expect? 0x2D rest
      let (_, rest) ← shortNumber? 1
        (daysIn (year.foldl (fun n b => n * 10 + (b - 0x30).toNat) 0) month) rest
      some rest
    match date with
    | none => false
    | some [] => true
    | some (mark :: rest) =>
      if mark == 0x54 || mark == 0x74 then ((clock? rest).bind zone?) == some []
      else if mark == 0x20 then clock? (rest.dropWhile (· == 0x20)) == some []
      else false

/-! Numbers. -/

/-- The digits of a base. -/
def digitsIn? (base : Nat) (text : Bytes) : Option Nat :=
  if text.isEmpty then none
  else text.foldl (fun n b => do
    let n ← n
    let d ← FloatText.hexValue? b
    if d < base then some (n * base + d) else none) (some 0)

/-- An unsigned integer, whose base is told by its start: a zero before other digits makes it octal. -/
def magnitude? (text : Bytes) : Option Nat :=
  match text with
  | 0x30 :: b :: rest =>
    let b' := Bytes.toLowerByte b
    if b' == 0x78 then digitsIn? 16 rest
    else if b' == 0x6F then digitsIn? 8 rest
    else if b' == 0x62 then digitsIn? 2 rest
    else digitsIn? 8 (b :: rest)
  | _ => digitsIn? 10 text

/-- An integer that fits into 64 bits, with a sign or without one. -/
def integer? (text : Bytes) : Option Int :=
  match text with
  | 0x2D :: rest => (magnitude? rest).bind fun n => if n ≤ Nat.pow 2 63 then some (-(n : Int)) else none
  | 0x2B :: rest => (magnitude? rest).bind fun n => if n < Nat.pow 2 63 then some (n : Int) else none
  | _ => (magnitude? text).bind fun n => if n < Nat.pow 2 64 then some (n : Int) else none

/-- Whether a text has the form of a decimal fraction with an optional exponent. -/
def hasFloatForm (text : Bytes) : Bool :=
  let text := match text with
    | c :: rest => if c == 0x2D || c == 0x2B then rest else text
    | [] => []
  let whole := text.takeWhile Bytes.isDigit
  let rest := text.drop whole.length
  let (ok, rest) := match rest with
    | 0x2E :: rest =>
      let fraction := rest.takeWhile Bytes.isDigit
      (!whole.isEmpty || !fraction.isEmpty, rest.drop fraction.length)
    | _ => (!whole.isEmpty, rest)
  ok && match rest with
    | [] => true
    | e :: rest =>
      (e == 0x65 || e == 0x45) &&
        let digits := match rest with
          | c :: rest' => if c == 0x2D || c == 0x2B then rest' else rest
          | [] => []
        !digits.isEmpty && digits.all Bytes.isDigit

def float? (text : Bytes) : Option UInt64 := (FloatText.read text).toOption

/-- The scalars that are known by their text alone. -/
def words : List (String × Value) :=
  [("", .null), ("~", .null), ("null", .null), ("Null", .null), ("NULL", .null),
    ("true", .bool true), ("True", .bool true), ("TRUE", .bool true),
    ("false", .bool false), ("False", .bool false), ("FALSE", .bool false),
    (".nan", .float Binary64.nanBits), (".NaN", .float Binary64.nanBits),
    (".NAN", .float Binary64.nanBits),
    (".inf", .float Binary64.infinityBits), (".Inf", .float Binary64.infinityBits),
    (".INF", .float Binary64.infinityBits), ("+.inf", .float Binary64.infinityBits),
    ("+.Inf", .float Binary64.infinityBits), ("+.INF", .float Binary64.infinityBits),
    ("-.inf", .float (Binary64.infinityBits ||| Binary64.signBit)),
    ("-.Inf", .float (Binary64.infinityBits ||| Binary64.signBit)),
    ("-.INF", .float (Binary64.infinityBits ||| Binary64.signBit))]

/-- A text that starts with a digit or a sign. -/
def numeric (text : Bytes) (times : Bool) : Value :=
  if times && isTimestamp text then .timestamp
  else
    let plain := text.filter (· != 0x5F)
    match integer? plain with
    | some n => .int n
    | none =>
      match (if hasFloatForm plain then float? plain else none) with
      | some bits => .float bits
      | none => .string text

/-- What a plain scalar stands for. -/
def resolve (text : Bytes) (times : Bool) : Value :=
  match words.find? fun w => Bytes.ofString w.1 == text with
  | some (_, v) => v
  | none =>
    match text with
    | [] => .null
    | c :: _ =>
      if c == 0x2E then
        match float? text with
        | some bits => .float bits
        | none => .string text
      else if Bytes.isDigit c || c == 0x2B || c == 0x2D then numeric text times
      else .string text

end LosslessTree.Yaml
