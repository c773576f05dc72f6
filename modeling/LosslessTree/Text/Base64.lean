import LosslessTree.Bytes.Basic

/-! Base64 with padding; line breaks between the characters say nothing. -/
namespace LosslessTree.Base64

def digit? (b : UInt8) : Option Nat :=
  if Bytes.isUpper b then some (b.toNat - 0x41)
  else if Bytes.isLower b then some (b.toNat - 0x61 + 26)
  else if Bytes.isDigit b then some (b.toNat - 0x30 + 52)
  else if b == 0x2B then some 62
  else if b == 0x2F then some 63
  else none

/-- Groups of four characters stand for three bytes; the last group may be padded. -/
def groups? : Bytes → Option Bytes
  | [] => some []
  | [a, b, 0x3D, 0x3D] => do
    let n := (← digit? a) * 4 + (← digit? b) / 16
    some [n.toUInt8]
  | [a, b, c, 0x3D] => do
    let n := (← digit? a) * 0x400 + (← digit? b) * 0x10 + (← digit? c) / 4
    some [(n / 0x100).toUInt8, n.toUInt8]
  | a :: b :: c :: d :: rest => do
    let n := (← digit? a) * 0x40000 + (← digit? b) * 0x1000 + (← digit? c) * 0x40 + (← digit? d)
    let after ← groups? rest
    some ((n / 0x10000).toUInt8 :: (n / 0x100).toUInt8 :: n.toUInt8 :: after)
  | _ => none

def decode? (text : Bytes) : Option Bytes :=
  groups? (text.filter fun b => b != Bytes.newline && b != Bytes.carriageReturn)

end LosslessTree.Base64
