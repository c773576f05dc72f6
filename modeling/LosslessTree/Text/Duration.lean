import LosslessTree.Bytes.Basic

/-! Elapsed times. Durations count nanoseconds and are printed in the largest unit that keeps the
integral part positive. -/
namespace LosslessTree

abbrev Nanoseconds := Int

namespace Duration

def microsecond : Nat := 1000
def millisecond : Nat := 1000000
def second : Nat := 1000000000
def minute : Nat := 60 * second
def hour : Nat := 60 * minute

/-- The longest duration that can be told. -/
def longest : Nat := Nat.pow 2 63 - 1

/-- Rounds to a multiple of `unit`, a half upwards. -/
def round (ns unit : Nat) : Nat :=
  let rest := ns % unit
  if 2 * rest < unit then ns - rest else min (ns + unit - rest) longest

/-- `places` digits of a fraction, without the zeros at its end. -/
def fraction (value places : Nat) : Bytes :=
  let digits := Bytes.ofNat value
  let padded := List.replicate (places - digits.length) 0x30 ++ digits
  match Bytes.trimRight (· == 0x30) padded with
  | [] => []
  | kept => 0x2E :: kept

/-- A count of a unit of `10 ^ places` nanoseconds. -/
def inUnit (ns places : Nat) : Bytes :=
  Bytes.ofNat (ns / Nat.pow 10 places) ++ fraction (ns % Nat.pow 10 places) places

def render (ns : Nat) : Bytes :=
  if ns = 0 then "0s"
  else if ns < microsecond then Bytes.ofNat ns ++ "ns"
  else if ns < millisecond then inUnit ns 3 ++ "µs"
  else if ns < second then inUnit ns 6 ++ "ms"
  else
    let seconds : Bytes := inUnit (ns % minute) 9 ++ "s"
    let minutes : Bytes := if ns < minute then [] else Bytes.ofNat (ns % hour / minute) ++ "m"
    let hours : Bytes := if ns < hour then [] else Bytes.ofNat (ns / hour) ++ "h"
    hours ++ minutes ++ seconds

/-- Timings are shown to the microsecond, to ten microseconds from one millisecond on, and to the
millisecond from one second on. -/
def timing (ns : Nanoseconds) : Bytes :=
  let n := ns.toNat
  if n < millisecond then render (round n microsecond)
  else if n < second then render (round n (10 * microsecond))
  else render (round n millisecond)

end Duration
end LosslessTree
