import LosslessTree.Bytes.Utf8
import LosslessTree.Number.FloatText

/-! Reading JSON texts. Only valid JSON is read; numbers keep their text, and arrays and objects keep the
text they were read from. -/
namespace LosslessTree

inductive JsonSource where
  | null
  | bool (b : Bool)
  | number (text : Bytes)
  | string (text : Bytes)
  | array (source : Bytes) (items : List JsonSource)
  | object (source : Bytes) (members : List (Bytes × JsonSource))

namespace JsonSource

def isBlank (b : UInt8) : Bool := b == 0x20 || b == 0x09 || b == 0x0A || b == 0x0D

def skipBlank (text : Bytes) : Bytes := text.dropWhile isBlank

/-- One or more digits. -/
def digits? (text : Bytes) : Option (Bytes × Bytes) :=
  match text.span Bytes.isDigit with
  | ([], _) => none
  | (digits, rest) => some (digits, rest)

/-- The integral part: a zero stands alone. -/
def integer? (text : Bytes) : Option (Bytes × Bytes) :=
  match text with
  | 0x30 :: rest => some ([0x30], rest)
  | _ => digits? text

def fraction? (text : Bytes) : Option (Bytes × Bytes) :=
  match text with
  | 0x2E :: rest => (digits? rest).map fun (ds, rest) => (0x2E :: ds, rest)
  | _ => some ([], text)

def exponent? (text : Bytes) : Option (Bytes × Bytes) :=
  match text with
  | e :: rest =>
    if e == 0x65 || e == 0x45 then
      match rest with
      | sign :: rest' =>
        if sign == 0x2B || sign == 0x2D then
          (digits? rest').map fun (ds, rest) => (e :: sign :: ds, rest)
        else (digits? rest).map fun (ds, rest) => (e :: ds, rest)
      | [] => none
    else some ([], text)
  | [] => some ([], [])

def number? (text : Bytes) : Option (Bytes × Bytes) := do
  let (sign, rest) := match text with
    | 0x2D :: rest => ([(0x2D : UInt8)], rest)
    | _ => ([], text)
  let (whole, rest) ← integer? rest
  let (fraction, rest) ← fraction? rest
  let (exponent, rest) ← exponent? rest
  some (sign ++ whole ++ fraction ++ exponent, rest)

/-- The value of four hexadecimal digits. -/
def hex4? : Bytes → Option Nat
  | a :: b :: c :: d :: _ => do
    let a ← FloatText.hexValue? a
    let b ← FloatText.hexValue? b
    let c ← FloatText.hexValue? c
    let d ← FloatText.hexValue? d
    some (((a * 16 + b) * 16 + c) * 16 + d)
  | _ => none

def isSurrogate (n : Nat) : Bool := 0xD800 ≤ n && n < 0xE000

/-- The code point of two surrogates; U+FFFD if they are no pair. -/
def pair (high low : Nat) : Nat :=
  if 0xD800 ≤ high && high < 0xDC00 && 0xDC00 ≤ low && low < 0xE000 then
    (high - 0xD800) * 0x400 + (low - 0xDC00) + 0x10000
  else Glyph.replacement

def escaped? : UInt8 → Option UInt8
  | 0x22 => some 0x22
  | 0x5C => some 0x5C
  | 0x2F => some 0x2F
  | 0x62 => some 0x08
  | 0x66 => some 0x0C
  | 0x6E => some 0x0A
  | 0x72 => some 0x0D
  | 0x74 => some 0x09
  | _ => none

/-- Reads up to the closing quote; `out` is the decoded text in reverse. A surrogate takes an escape
right after it along. -/
def stringFrom (fuel : Nat) (out : Bytes) (text : Bytes) : Option (Bytes × Bytes) :=
  match fuel, text with
  | 0, _ | _, [] => none
  | fuel + 1, b :: rest =>
    if b == 0x22 then some (out.reverse, rest)
    else if b < 0x20 then none
    else if b != 0x5C then stringFrom fuel (b :: out) rest
    else match rest with
      | [] => none
      | 0x75 :: rest =>
        match hex4? rest with
        | none => none
        | some n =>
          let rest := rest.drop 4
          let second := match rest with
            | 0x5C :: 0x75 :: after => if isSurrogate n then hex4? after else none
            | _ => none
          match second with
          | some m => stringFrom fuel ((Utf8.encode (pair n m)).reverse ++ out) (rest.drop 6)
          | none => stringFrom fuel ((Utf8.encode n).reverse ++ out) rest
      | c :: rest =>
        match escaped? c with
        | some d => stringFrom fuel (d :: out) rest
        | none => none

/-- Reads a string after its opening quote. -/
def string? (text : Bytes) : Option (Bytes × Bytes) := stringFrom (text.length + 1) [] text

mutual

/-- Reads one value, with white space before it. -/
def value? (fuel : Nat) (text : Bytes) : Option (JsonSource × Bytes) :=
  match fuel with
  | 0 => none
  | fuel + 1 =>
    let text := skipBlank text
    match text with
    | [] => none
    | 0x22 :: rest => (string? rest).map fun (s, rest) => (.string s, rest)
    | 0x5B :: rest => do
      let (items, after) ← match skipBlank rest with
        | 0x5D :: after => some ([], after)
        | _ => items? fuel rest
      some (.array (text.take (text.length - after.length)) items, after)
    | 0x7B :: rest => do
      let (members, after) ← match skipBlank rest with
        | 0x7D :: after => some ([], after)
        | _ => members? fuel rest
      some (.object (text.take (text.length - after.length)) members, after)
    | _ =>
      match Bytes.after? "true" text, Bytes.after? "false" text, Bytes.after? "null" text with
      | some rest, _, _ => some (.bool true, rest)
      | _, some rest, _ => some (.bool false, rest)
      | _, _, some rest => some (.null, rest)
      | _, _, _ => (number? text).map fun (t, rest) => (.number t, rest)

/-- Reads items up to the closing bracket. -/
def items? (fuel : Nat) (text : Bytes) : Option (List JsonSource × Bytes) :=
  match fuel with
  | 0 => none
  | fuel + 1 => do
    let (v, rest) ← value? fuel text
    match skipBlank rest with
    | 0x5D :: rest => some ([v], rest)
    | 0x2C :: rest => do
      let (vs, rest) ← items? fuel rest
      some (v :: vs, rest)
    | _ => none

/-- Reads members up to the closing brace. -/
def members? (fuel : Nat) (text : Bytes) : Option (List (Bytes × JsonSource) × Bytes) :=
  match fuel with
  | 0 => none
  | fuel + 1 =>
    match skipBlank text with
    | 0x22 :: rest => do
      let (key, rest) ← string? rest
      match skipBlank rest with
      | 0x3A :: rest => do
        let (v, rest) ← value? fuel rest
        match skipBlank rest with
        | 0x7D :: rest => some ([(key, v)], rest)
        | 0x2C :: rest => do
          let (vs, rest) ← members? fuel rest
          some ((key, v) :: vs, rest)
        | _ => none
      | _ => none
    | _ => none

end

/-- Reads a whole text. -/
def read? (text : Bytes) : Option JsonSource :=
  match value? (2 * text.length + 2) text with
  | some (v, rest) => if (skipBlank rest).isEmpty then some v else none
  | none => none

/-- The first member of that name. -/
def member? (v : JsonSource) (key : String) : Option JsonSource :=
  match v with
  | .object _ members => (members.find? fun m => m.1 == Bytes.ofString key).map Prod.snd
  | _ => none

end JsonSource
end LosslessTree
