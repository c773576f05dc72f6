/-! Cancellation. Long work asks now and then whether to stop; what matters is which of its checks is
the first to be told so. -/
namespace LosslessTree

structure Cancellation where
  /-- How many more checks pass; without a number all of them do. -/
  left : Option Nat := none
  deriving DecidableEq, Repr

namespace Cancellation

def never : Cancellation := {}

def after (n : Nat) : Cancellation := ⟨some n⟩

def isDue (c : Cancellation) : Bool := c.left == some 0

/-- What is left after one check. -/
def next (c : Cancellation) : Cancellation := ⟨c.left.map (· - 1)⟩

@[simp] theorem isDue_never : never.isDue = false := rfl

@[simp] theorem next_never : never.next = never := rfl

def message : String := "context canceled"

end Cancellation
end LosslessTree
