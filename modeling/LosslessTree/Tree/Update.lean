import LosslessTree.Tree.Basic

/-! Persistent updates of a node's child list. A slot is where a child may be missing; every update
refuses an empty slot, and leaves the node it starts from untouched. -/
namespace LosslessTree

/-- A place for a child, possibly empty. -/
abbrev Slot := Option Tree

inductive UpdateError where
  /-- No child has this index. -/
  | index (index : Int) (count : Nat)
  /-- The indices bound no range of children. -/
  | range (start stop : Int) (count : Nat)
  /-- An empty slot was given where a child is needed. -/
  | emptySlot
  deriving DecidableEq, Repr

namespace UpdateError

def indexMessage (i : Int) (count : Nat) : Bytes :=
  "child index " ++ Bytes.ofInt i ++ " out of bounds for " ++ Bytes.ofNat count ++ " children"

/-- A range with a negative end is reported as a single index. -/
def message : UpdateError → Bytes
  | .index i count => indexMessage i count
  | .range start stop count =>
    if 0 ≤ stop then
      "child range " ++ Bytes.ofInt start ++ ".." ++ Bytes.ofInt stop ++ " out of bounds for " ++
        Bytes.ofNat count ++ " children"
    else indexMessage start count
  | .emptySlot => "invalid element"

end UpdateError

namespace Tree

/-- A node over the filled slots. -/
def ofSlots (kind : Kind) (slots : List Slot) : Tree := .node kind (slots.filterMap id)

def replaceChild (kind : Kind) (children : List Tree) (index : Int) (slot : Slot) :
    Except UpdateError Tree :=
  if index < 0 ∨ children.length ≤ index then .error (.index index children.length)
  else match slot with
    | none => .error .emptySlot
    | some child => .ok (.node kind (children.set index.toNat child))

/-- Puts `slots` in the place of the children from `start` up to `stop`. -/
def splice (kind : Kind) (children : List Tree) (start stop : Int) (slots : List Slot) :
    Except UpdateError Tree :=
  if start < 0 ∨ stop < start ∨ children.length < stop then
    .error (.range start stop children.length)
  else if slots.any Option.isNone then .error .emptySlot
  else .ok (.node kind
    (children.take start.toNat ++ slots.filterMap id ++ children.drop stop.toNat))

/-- Puts a child before `index`; the index after the last child appends. -/
def insertChild (kind : Kind) (children : List Tree) (index : Int) (slot : Slot) :
    Except UpdateError Tree :=
  splice kind children index index [slot]

def removeChild (kind : Kind) (children : List Tree) (index : Int) : Except UpdateError Tree :=
  if index < 0 ∨ children.length ≤ index then .error (.index index children.length)
  else splice kind children index (index + 1) []

end Tree
end LosslessTree
