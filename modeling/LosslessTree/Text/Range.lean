import LosslessTree.Bytes.Basic

/-! Half-open byte ranges `start..stop` of a text. -/
namespace LosslessTree

structure TextRange where
  start : Int
  stop : Int
  deriving DecidableEq, Repr

namespace TextRange

/-- The range with the given ends, unless they are inverted. -/
def ofEnds? (start stop : Int) : Option TextRange :=
  if start ≤ stop then some ⟨start, stop⟩ else none

/-- The range of `length` bytes from `offset`, unless the length is negative. -/
def ofLength? (offset length : Int) : Option TextRange := ofEnds? offset (offset + length)

def ofOffset (offset length : Nat) : TextRange := ⟨offset, offset + length⟩

def length (r : TextRange) : Int := r.stop - r.start

def isEmpty (r : TextRange) : Bool := r.start == r.stop

def contains (r : TextRange) (offset : Int) : Bool := r.start ≤ offset && offset < r.stop

/-- Whether `other` lies within `r`; an empty range at the end of `r` does. -/
def containsRange (r other : TextRange) : Bool := r.start ≤ other.start && other.stop ≤ r.stop

def shift (r : TextRange) (offset : Int) : TextRange := ⟨r.start + offset, r.stop + offset⟩

def render (r : TextRange) : Bytes := Bytes.ofInt r.start ++ ".." ++ Bytes.ofInt r.stop

/-- What is said of ends that bound no range. -/
def invalidMessage (start stop : Int) : Bytes := "syntax: invalid range " ++ render ⟨start, stop⟩

end TextRange
end LosslessTree
