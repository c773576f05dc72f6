import LosslessTree.Bytes.Basic
import LosslessTree.Number.Binary64

/-! Writing finite doubles in decimal: with the fewest digits that read back, or with a fixed number of
places. Both work on the exact value `significand · 2 ^ scale`. -/
namespace LosslessTree

structure Dyadic where
  significand : Nat
  scale : Int
  deriving DecidableEq, Repr

namespace Dyadic

/-- The magnitude of the finite double with these bits. -/
def ofBits (bits : UInt64) : Dyadic :=
  let fraction := bits.toNat % Nat.pow 2 52
  let exponent : Nat := bits.toNat / Nat.pow 2 52 % Nat.pow 2 11
  if exponent = 0 then ⟨fraction, -1074⟩ else ⟨Nat.pow 2 52 + fraction, (exponent : Int) - 1075⟩

/-- The value as a quotient of natural numbers. -/
def quotient (d : Dyadic) : Nat × Nat :=
  if 0 ≤ d.scale then (d.significand * Nat.pow 2 d.scale.toNat, 1)
  else (d.significand, Nat.pow 2 (-d.scale).toNat)

/-- Halfway up to the next double. -/
def above (d : Dyadic) : Dyadic := ⟨2 * d.significand + 1, d.scale - 1⟩

/-- Halfway down to the previous double, which lies closer below a power of two. -/
def below (d : Dyadic) : Dyadic :=
  if d.significand = Nat.pow 2 52 ∧ -1074 < d.scale then ⟨4 * d.significand - 1, d.scale - 2⟩
  else ⟨2 * d.significand - 1, d.scale - 1⟩

end Dyadic

/-- The number `digits · 10 ^ exponent`. -/
structure Decimal where
  digits : Nat
  exponent : Int
  deriving DecidableEq, Repr

namespace Decimal

def quotient (x : Decimal) : Nat × Nat :=
  if 0 ≤ x.exponent then (x.digits * Nat.pow 10 x.exponent.toNat, 1)
  else (x.digits, Nat.pow 10 (-x.exponent).toNat)

def lt (a b : Nat × Nat) : Bool := a.1 * b.2 < b.1 * a.2

/-- Whether a reader would round the decimal to the double. -/
def readsAs (x : Decimal) (d : Dyadic) : Bool :=
  let q := x.quotient
  if d.significand % 2 = 0 then !lt q d.below.quotient && !lt d.above.quotient q
  else lt d.below.quotient q && lt q d.above.quotient

/-- The exponent of the leading decimal digit of a positive quotient, searched from an estimate. -/
def leading (q : Nat × Nat) : Int :=
  let guess : Int := (Binary64.magnitude q.1 q.2) * 30103 / 100000
  if lt q (quotient ⟨1, guess⟩) then guess - 1
  else if !lt q (quotient ⟨1, guess + 1⟩) then guess + 1
  else guess

/-- The two neighbours of a quotient among the multiples of a power of ten. -/
def neighbours (q : Nat × Nat) (exponent : Int) : Decimal × Decimal :=
  let low := if 0 ≤ exponent then q.1 / (q.2 * Nat.pow 10 exponent.toNat)
    else q.1 * Nat.pow 10 (-exponent).toNat / q.2
  (⟨low, exponent⟩, ⟨low + 1, exponent⟩)

/-- Whether `a ≤ q ≤ b` lies nearer to `a`; a tie goes to even digits. -/
def isNearer (q : Nat × Nat) (a b : Decimal) : Bool :=
  let middle := quotient ⟨5 * (a.digits + b.digits), a.exponent - 1⟩
  if lt q middle then true else if lt middle q then false else a.digits % 2 == 0

/-- Tries the grids of `count`, `count + 1`, … digits; `fuel` more of them at most. -/
def shortestFrom (d : Dyadic) (top : Int) (count : Nat) : Nat → Decimal
  | 0 => (neighbours d.quotient (top - 16)).1
  | fuel + 1 =>
    let (a, b) := neighbours d.quotient (top + 1 - count)
    match a.readsAs d, b.readsAs d with
    | true, true => if isNearer d.quotient a b then a else b
    | true, false => a
    | false, true => b
    | false, false => shortestFrom d top (count + 1) fuel

/-- The shortest decimal that reads back as a positive double, and of those the nearest. -/
def shortest (d : Dyadic) : Decimal := shortestFrom d (leading d.quotient) 1 17

/-- The digits around a point, `places` of them after it. -/
def withPoint (digits places : Nat) : Bytes :=
  let text := Bytes.ofNat digits
  let text := List.replicate (places + 1 - text.length) 0x30 ++ text
  if places = 0 then text
  else text.take (text.length - places) ++ 0x2E :: text.drop (text.length - places)

/-- Positional form without needless zeros. -/
def positional (x : Decimal) : Bytes :=
  if 0 ≤ x.exponent then withPoint (x.digits * Nat.pow 10 x.exponent.toNat) 0
  else
    let text := withPoint x.digits (-x.exponent).toNat
    Bytes.trimRight (· == 0x2E) (Bytes.trimRight (· == 0x30) text)

/-- Scientific form with a signed exponent. -/
def scientific (x : Decimal) : Bytes :=
  let digits := Bytes.trimRight (· == 0x30) (Bytes.ofNat x.digits)
  let exponent := x.exponent + ((Bytes.ofNat x.digits).length - 1)
  digits.take 1 ++ (if digits.length = 1 then [] else 0x2E :: digits.drop 1) ++ "e" ++
    (if exponent < 0 then Bytes.ofInt exponent else 0x2B :: Bytes.ofInt exponent)

/-- A double as a JSON number: positional from one millionth up to below `10 ^ 21`. -/
def ofFloat (f : Float) : Bytes :=
  let bits := f.toBits
  let d := Dyadic.ofBits bits
  let text : Bytes :=
    if d.significand = 0 then "0"
    else
      let x := shortest d
      if lt d.quotient (quotient ⟨1, -6⟩) || !lt d.quotient (quotient ⟨1, 21⟩) then x.scientific
      else x.positional
  if bits.toNat < Nat.pow 2 63 then text else 0x2D :: text

/-- A finite double with a fixed number of places; a tie goes to the even neighbour. -/
def fixed (places : Nat) (f : Float) : Bytes :=
  let (num, den) := (Dyadic.ofBits f.toBits).quotient
  let text := withPoint (Binary64.roundQuotient (num * Nat.pow 10 places) den) places
  if f.toBits.toNat < Nat.pow 2 63 then text else 0x2D :: text

end Decimal
end LosslessTree
