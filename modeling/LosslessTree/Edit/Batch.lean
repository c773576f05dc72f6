import LosslessTree.Edit.Basic
import LosslessTree.Json.Reader
import LosslessTree.Number.Decimal
import LosslessTree.Text.Trim

/-! Batches of edits as they are given by users: ranges as text, and lists of edits as JSON. -/
namespace LosslessTree

namespace EditText

/-- Splits at the first `..`. -/
def cut? : Bytes → Option (Bytes × Bytes)
  | 0x2E :: 0x2E :: rest => some ([], rest)
  | b :: rest => (cut? rest).map fun (before, after) => (b :: before, after)
  | [] => none

inductive RangeError where
  | badStart (text : Bytes)
  | badStop (text : Bytes)
  deriving DecidableEq, Repr

def RangeError.message : RangeError → Bytes
  | .badStart text => "bad range " ++ Quoted.encode text ++ ": start must be an integer"
  | .badStop text => "bad range " ++ Quoted.encode text ++ ": end must be an integer"

/-- A range `start..stop`; a single offset stands for the empty range there. -/
def range (text : Bytes) : Except RangeError TextRange :=
  let trimmed := Text.trimSpace text
  let (start, stop) := (cut? trimmed).getD (trimmed, trimmed)
  match Text.integer? start with
  | none => .error (.badStart text)
  | some start =>
    match Text.integer? stop with
    | none => .error (.badStop text)
    | some stop => .ok ⟨start, stop⟩

end EditText

/-- Why one edit of a batch cannot be read. -/
inductive EditEntryError where
  | notObject
  | textNotString
  | startNotNumber
  | stopNotNumber
  | badRange (e : EditText.RangeError)
  deriving DecidableEq, Repr

inductive BatchError where
  | notJson
  | notArray
  /-- The entries that cannot be read, by their position. -/
  | badEntries (errors : List (Nat × EditEntryError))
  deriving DecidableEq, Repr

/-- What is said first of anything a user got wrong. -/
def usagePreamble : Bytes := "invalid usage: "

def EditEntryError.message : EditEntryError → Bytes
  | .notObject => "not an object"
  | .textNotString => "text must be a string"
  | .startNotNumber => "start must be a number"
  | .stopNotNumber => "end must be a number"
  | .badRange e => usagePreamble ++ e.message

def BatchError.message : BatchError → Bytes
  | .notJson => usagePreamble ++ "edits file is not valid JSON"
  | .notArray => usagePreamble ++ "edits must be an array or an object with an \"edits\" array"
  | .badEntries errors => usagePreamble ++ Bytes.join "\n" (errors.map fun (i, e) =>
      "edit " ++ Bytes.ofNat i ++ ": " ++ e.message)

namespace EditBatch

/-- The bits of a JSON number, and of an infinity if it is too large. -/
def numberBits (text : Bytes) : UInt64 :=
  match FloatText.read text with
  | .ok bits => bits
  | .error _ =>
    if text.head? == some 0x2D then Binary64.infinityBits ||| Binary64.signBit
    else Binary64.infinityBits

def isNegative (bits : UInt64) : Bool := Nat.pow 2 63 ≤ bits.toNat

/-- The integral part of a double; nothing for an infinity. -/
def truncated? (bits : UInt64) : Option Int :=
  if bits.toNat % Nat.pow 2 63 = Binary64.infinityBits.toNat then none
  else
    let (num, den) := (Dyadic.ofBits bits).quotient
    some (if isNegative bits then -((num / den : Nat) : Int) else (num / den : Nat))

/-- Whether a double is less than `2 ^ 53` in magnitude. Integers up to there are exact as doubles. -/
def isExact (bits : UInt64) : Bool :=
  bits.toNat % Nat.pow 2 63 ≤ 0x433FFFFFFFFFFFFF

/-- A number as an offset: small ones lose their fraction; large ones written in digits only wrap at 64
bits; others out of range become the least offset. -/
def offset (text : Bytes) : Int :=
  let bits := numberBits text
  let (sign, digits) : Int × Bytes := match text with
    | 0x2D :: rest => (-1, rest)
    | _ => (1, text)
  if isExact bits then (truncated? bits).getD 0
  else if digits.all Bytes.isDigit then Int.bmod (sign * Text.decimal digits) (Nat.pow 2 64)
  else match truncated? bits with
    | some n => if Text.isWord n then n else -(Nat.pow 2 63 : Int)
    | none => -(Nat.pow 2 63 : Int)

/-- The text that a range is read from: that of a string, else the value as JSON, where numbers are
written out. -/
def rangeText : JsonSource → Bytes
  | .null => []
  | .bool b => if b then "true" else "false"
  | .string text => text
  | .array source _ | .object source _ => source
  | .number text =>
    let digits := match text with
      | 0x2D :: rest => rest
      | _ => text
    if digits.all Bytes.isDigit then text
    else
      let bits := numberBits text
      let sign : Bytes := if isNegative bits then "-" else []
      if bits.toNat % Nat.pow 2 63 = Binary64.infinityBits.toNat then
        (if isNegative bits then "-Inf" else "+Inf")
      else
        let d := Dyadic.ofBits bits
        if d.significand = 0 then sign ++ "0" else sign ++ (Decimal.shortest d).positional

def edit (v : JsonSource) : Except EditEntryError TextEdit :=
  match v with
  | .object .. => do
    let text ← match v.member? "text" with
      | none => .ok []
      | some (.string text) => .ok text
      | some _ => .error .textNotString
    match v.member? "range" with
    | some r =>
      match EditText.range (rangeText r) with
      | .ok range => .ok ⟨range, text⟩
      | .error e => .error (.badRange e)
    | none =>
      match v.member? "start", v.member? "end" with
      | some (.number start), none => .ok ⟨⟨offset start, offset start⟩, text⟩
      | some (.number start), some (.number stop) => .ok ⟨⟨offset start, offset stop⟩, text⟩
      | some (.number _), some _ => .error .stopNotNumber
      | _, _ => .error .startNotNumber
  | _ => .error .notObject

/-- Reads all entries, and collects the errors if there are any. -/
def entries (index : Nat) : List JsonSource → List TextEdit × List (Nat × EditEntryError)
  | [] => ([], [])
  | v :: rest =>
    let (edits, errors) := entries (index + 1) rest
    match edit v with
    | .ok e => (e :: edits, errors)
    | .error e => (edits, (index, e) :: errors)

/-- A batch of edits: an array of them, or an object that holds the array. -/
def read (text : Bytes) : Except BatchError (List TextEdit) :=
  match JsonSource.read? text with
  | none => .error .notJson
  | some v =>
    let list := match v with
      | .object .. => v.member? "edits"
      | _ => some v
    match list with
    | some (.array _ items) =>
      match entries 0 items with
      | (edits, []) => .ok edits
      | (_, errors) => .error (.badEntries errors)
    | _ => .error .notArray

end EditBatch
end LosslessTree
