import LosslessTree.Cursor.Basic

/-! Finding places by source range. The children of a node lie side by side, so the one that holds an
offset is found by bisection on their ends. -/
namespace LosslessTree

/-- The least index in `low..high` at which a monotone test holds, or `high`. -/
def bisect (test : Nat → Bool) (low high : Nat) : Nat :=
  if low < high then
    let middle := (low + high) / 2
    if test middle then bisect test low middle else bisect test (middle + 1) high
  else low
termination_by high - low

namespace Cursor

theorem weight_child?_lt {c d : Cursor} {i : Nat} (h : c.child? i = some d) :
    d.tree.weight < c.tree.weight := by
  unfold child? at h
  split at h
  · simp at h
  · rename_i k cs hc
    obtain ⟨t, ht, rfl⟩ := Option.map_eq_some_iff.1 h
    exact Tree.weight_lt_of_mem_children (hc ▸ List.mem_of_getElem? ht)

/-- Where child `i` ends relative to the node. -/
def childStop (c : Cursor) (i : Nat) : Nat := Tree.lengthAll (c.tree.children.take (i + 1))

/-- The index of the one child that holds the start of `r` and reaches up to its end. -/
def childIndexContaining? (c : Cursor) (r : TextRange) : Option Nat :=
  if r.stop < r.start ∨ !c.range.containsRange r then none
  else
    let count := c.tree.children.length
    let local_ := r.shift (-c.offset)
    let i := bisect (fun i => local_.start < c.childStop i) 0 count
    if i = count then none
    else if local_.start < Tree.lengthAll (c.tree.children.take i) ∨ c.childStop i < local_.stop then
      none
    else some i

def childContaining? (c : Cursor) (r : TextRange) : Option Cursor :=
  (c.childIndexContaining? r).bind c.child?

theorem weight_childContaining?_lt {c d : Cursor} {r : TextRange}
    (h : c.childContaining? r = some d) : d.tree.weight < c.tree.weight := by
  obtain ⟨i, _, hi⟩ := Option.bind_eq_some_iff.1 h
  exact weight_child?_lt hi

/-- The deepest place reached by going down into the child that contains the range. -/
def deepestContaining (c : Cursor) (r : TextRange) : Cursor :=
  match _h : c.childContaining? r with
  | none => c
  | some d => if d.isNode then deepestContaining d r else d
termination_by c.tree.weight
decreasing_by exact weight_childContaining?_lt ‹_›

/-- The deepest place whose range contains `r`, if `r` lies within the node. -/
def covering? (c : Cursor) (r : TextRange) : Option Cursor :=
  if r.stop < r.start ∨ !c.range.containsRange r then none else some (c.deepestContaining r)

/-- The token that holds the byte at `offset`. -/
def tokenAt? (c : Cursor) (offset : Int) : Option Cursor :=
  if c.range.contains offset then
    (c.covering? ⟨offset, offset + 1⟩).filter isToken
  else none

end Cursor
end LosslessTree
