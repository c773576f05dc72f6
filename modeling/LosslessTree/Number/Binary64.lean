/-! Rounding exact quotients to double precision. -/
namespace LosslessTree.Binary64

/-- A quotient rounded to the nearest integer, ties to the even one. -/
def roundQuotient (num den : Nat) : Nat :=
  let q := num / den
  let twice := 2 * (num % den)
  if twice < den ∨ (twice = den ∧ q % 2 = 0) then q else q + 1

/-- The exponent `e` with `2 ^ e ≤ num / den < 2 ^ (e + 1)`. -/
def magnitude (num den : Nat) : Int :=
  let e : Int := (num.log2 : Int) - den.log2
  let reaches := if 0 ≤ e then den * Nat.pow 2 e.toNat ≤ num else den ≤ num * Nat.pow 2 (-e).toNat
  if reaches then e else e - 1

/-- The bits of the double nearest to `num / den`, ties to even; nothing if it is too large. -/
def ofQuotient? (num den : Nat) : Option UInt64 :=
  if num = 0 then some 0
  else
    let scale := max (magnitude num den - 52) (-1074)
    let significand :=
      if 0 ≤ scale then roundQuotient num (den * Nat.pow 2 scale.toNat)
      else roundQuotient (num * Nat.pow 2 (-scale).toNat) den
    let (significand, scale) :=
      if significand = Nat.pow 2 53 then (Nat.pow 2 52, scale + 1) else (significand, scale)
    if 971 < scale then none
    else if significand < Nat.pow 2 52 then some significand.toUInt64
    else some (((scale + 1075).toNat * Nat.pow 2 52 + (significand - Nat.pow 2 52)).toUInt64)

/-- The bits of `digits · 10 ^ exponent`. Exponents far outside the range of doubles are settled by
the number of digits alone. -/
def ofDecimal? (digits : Nat) (exponent : Int) : Option UInt64 :=
  if digits = 0 then some 0
  else
    let top := exponent + (digits.log2 : Int) * 3 / 10
    if 400 < top then none
    else if top < -420 then some 0
    else if 0 ≤ exponent then ofQuotient? (digits * Nat.pow 10 exponent.toNat) 1
    else ofQuotient? digits (Nat.pow 10 (-exponent).toNat)

/-- The bits of `digits · 2 ^ exponent`. -/
def ofBinary? (digits : Nat) (exponent : Int) : Option UInt64 :=
  if digits = 0 then some 0
  else
    let top := exponent + digits.log2
    if 1100 < top then none
    else if top < -1200 then some 0
    else if 0 ≤ exponent then ofQuotient? (digits * Nat.pow 2 exponent.toNat) 1
    else ofQuotient? digits (Nat.pow 2 (-exponent).toNat)

def infinityBits : UInt64 := 0x7FF0000000000000
def nanBits : UInt64 := 0x7FF8000000000001
def signBit : UInt64 := 0x8000000000000000

end LosslessTree.Binary64
