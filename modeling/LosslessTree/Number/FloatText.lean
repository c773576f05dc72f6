import LosslessTree.Bytes.Basic
import LosslessTree.Number.Binary64

/-! Reading floating-point numbers: decimal digits with an optional point and exponent, hexadecimal
digits with a binary exponent, infinities and NaN. Underscores may stand between digits. -/
namespace LosslessTree.FloatText

inductive ReadError where
  | malformed
  | tooLarge
  deriving DecidableEq, Repr

/-- The scanned digits: their value, how many follow the point, and whether there were any. -/
structure Digits where
  value : Nat := 0
  fraction : Nat := 0
  any : Bool := false
  point : Bool := false
  underscore : Bool := false

def hexValue? (b : UInt8) : Option Nat :=
  if Bytes.isDigit b then some (b - 0x30).toNat
  else
    let b := Bytes.toLowerByte b
    if 0x61 ≤ b && b ≤ 0x66 then some (b - 0x57).toNat else none

def digitValue? (isHex : Bool) (b : UInt8) : Option Nat :=
  if isHex then hexValue? b else if Bytes.isDigit b then some (b - 0x30).toNat else none

def digits (isHex : Bool) (d : Digits) : Bytes → Digits × Bytes
  | [] => (d, [])
  | b :: rest =>
    if b == 0x5F then digits isHex { d with underscore := true } rest
    else if b == 0x2E then
      if d.point then (d, b :: rest) else digits isHex { d with point := true } rest
    else match digitValue? isHex b with
      | none => (d, b :: rest)
      | some v =>
        digits isHex
          { d with
            value := d.value * (if isHex then 16 else 10) + v
            fraction := if d.point then d.fraction + 1 else d.fraction
            any := true } rest

/-- The digits of an exponent; digits beyond the fifth change nothing any more. -/
def exponentDigits (e : Nat) (underscore : Bool) : Bytes → Nat × Bool × Bytes
  | [] => (e, underscore, [])
  | b :: rest =>
    if b == 0x5F then exponentDigits e true rest
    else if Bytes.isDigit b then
      exponentDigits (if e < 10000 then e * 10 + (b - 0x30).toNat else e) underscore rest
    else (e, underscore, b :: rest)

inductive Before where
  | begin | digit | underscore | other
  deriving DecidableEq

/-- Whether every underscore stands between digits. -/
def underscoresSeparate (isHex : Bool) (before : Before) : Bytes → Bool
  | [] => before != .underscore
  | b :: rest =>
    if (digitValue? isHex b).isSome then underscoresSeparate isHex .digit rest
    else if b == 0x5F then before == .digit && underscoresSeparate isHex .underscore rest
    else before != .underscore && underscoresSeparate isHex .other rest

def underscoresOk (text : Bytes) : Bool :=
  match text with
  | 0x30 :: b :: rest =>
    let b := Bytes.toLowerByte b
    if b == 0x78 then underscoresSeparate true .digit rest
    else if b == 0x62 || b == 0x6F then underscoresSeparate false .digit rest
    else underscoresSeparate false .begin text
  | _ => underscoresSeparate false .begin text

def signedBits (negative : Bool) (bits : UInt64) : UInt64 :=
  if negative then bits ||| Binary64.signBit else bits

/-- Reads an unsigned number. -/
def readUnsigned (text : Bytes) : Except ReadError UInt64 :=
  let lower := Bytes.toLower text
  if lower = "inf" ∨ lower = "infinity" then .ok Binary64.infinityBits
  else
    let isHex := (Bytes.startsWith lower "0x") && 2 < text.length
    let (d, rest) := digits isHex {} (if isHex then text.drop 2 else text)
    let exponentMark : UInt8 := if isHex then 0x70 else 0x65
    let exponent : Option (Int × Bool × Bytes) :=
      match rest with
      | [] => if isHex then none else some (0, false, [])
      | mark :: rest =>
        if Bytes.toLowerByte mark != exponentMark then none
        else
          let (negative, rest) := match rest with
            | 0x2B :: rest => (false, rest)
            | 0x2D :: rest => (true, rest)
            | rest => (false, rest)
          match rest with
          | [] => none
          | b :: _ =>
            if Bytes.isDigit b then
              let (e, underscore, rest) := exponentDigits 0 false rest
              some (if negative then -(e : Int) else e, underscore, rest)
            else none
    match exponent with
    | none => .error .malformed
    | some (e, underscore, rest) =>
      if !d.any ∨ !rest.isEmpty ∨ ((d.underscore || underscore) ∧ !underscoresOk text) then
        .error .malformed
      else
        let bits :=
          if isHex then Binary64.ofBinary? d.value (e - 4 * d.fraction)
          else Binary64.ofDecimal? d.value (e - d.fraction)
        match bits with
        | some bits => .ok bits
        | none => .error .tooLarge

/-- Reads a number as the bits of a double. -/
def read (text : Bytes) : Except ReadError UInt64 :=
  if Bytes.toLower text = "nan" then .ok Binary64.nanBits
  else match text with
    | 0x2B :: rest => readUnsigned rest
    | 0x2D :: rest => (readUnsigned rest).map (signedBits true)
    | _ => readUnsigned text

end LosslessTree.FloatText
