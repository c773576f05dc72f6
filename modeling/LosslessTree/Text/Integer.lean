import LosslessTree.Number.FloatText
import LosslessTree.Text.Trim

/-! Reading integers that fit into 64 bits with a sign. A number is decimal, unless it starts with `0x`,
`0o`, `0b` or, for octal, a mere zero. Underscores may stand between digits. -/
namespace LosslessTree.IntegerText

inductive ReadError where
  | malformed
  | outOfRange
  deriving DecidableEq, Repr

def ReadError.message : ReadError → String
  | .malformed => "invalid syntax"
  | .outOfRange => "value out of range"

/-- The base of an unsigned number, and its digits. -/
def base : Bytes → Nat × Bytes
  | 0x30 :: mark :: digit :: rest =>
    match Bytes.toLowerByte mark with
    | 0x62 => (2, digit :: rest)
    | 0x6F => (8, digit :: rest)
    | 0x78 => (16, digit :: rest)
    | _ => (8, mark :: digit :: rest)
  | 0x30 :: rest => (8, rest)
  | text => (10, text)

def digit? (base : Nat) (b : UInt8) : Option Nat :=
  let value :=
    if Bytes.isDigit b then some (b - 0x30).toNat
    else if Bytes.isAlpha b then some (Bytes.toLowerByte b - 0x57).toNat
    else none
  value.filter (· < base)

/-- Reads on from a value; the first digit that makes it too large or that is none ends the reading. -/
def digits (base value : Nat) : Bytes → Except ReadError Nat
  | [] => .ok value
  | b :: rest =>
    if b == 0x5F then digits base value rest
    else match digit? base b with
      | none => .error .malformed
      | some d =>
        if Nat.pow 2 64 ≤ value * base + d then .error .outOfRange
        else digits base (value * base + d) rest

def readUnsigned (text : Bytes) : Except ReadError Nat :=
  if text.isEmpty then .error .malformed
  else
    let (radix, body) := base text
    match digits radix 0 body with
    | .error e => .error e
    | .ok n =>
      if body.contains 0x5F && !FloatText.underscoresOk text then .error .malformed else .ok n

def read (text : Bytes) : Except ReadError Int :=
  let (negative, body) := match text with
    | 0x2B :: rest => (false, rest)
    | 0x2D :: rest => (true, rest)
    | _ => (false, text)
  match readUnsigned body with
  | .error e => .error e
  | .ok n =>
    let n : Int := if negative then -(n : Int) else n
    if Text.isWord n then .ok n else .error .outOfRange

end LosslessTree.IntegerText
