import LosslessTree.Text.Range
import LosslessTree.Tree.Basic

/-! Cursors. A cursor is a place in a tree: the subtree there, the offset at which it starts in the
source, and the trail of nodes above it. Cursors are made while moving and hold no state. -/
namespace LosslessTree

/-- A node on the way up: where it starts and which of its children lies below. -/
structure Ancestor where
  kind : Kind
  children : List Tree
  offset : Nat
  index : Nat

structure Cursor where
  tree : Tree
  offset : Nat := 0
  /-- The nodes above, innermost first. -/
  trail : List Ancestor := []

namespace Cursor

def ofRoot (t : Tree) : Cursor := { tree := t }

def kind (c : Cursor) : Kind := c.tree.kind
def isNode (c : Cursor) : Bool := c.tree.isNode
def isToken (c : Cursor) : Bool := c.tree.isToken
def length (c : Cursor) : Nat := c.tree.length
def text (c : Cursor) : Bytes := c.tree.text
def range (c : Cursor) : TextRange := .ofOffset c.offset c.length
def isRoot (c : Cursor) : Bool := c.trail.isEmpty

/-- The position among the parent's children; `0` at the root. -/
def index (c : Cursor) : Nat := (c.trail.head?.map Ancestor.index).getD 0

def parent? (c : Cursor) : Option Cursor :=
  match c.trail with
  | [] => none
  | a :: trail => some ⟨.node a.kind a.children, a.offset, trail⟩

/-- The nodes on a trail, innermost first. -/
def ofTrail : List Ancestor → List Cursor
  | [] => []
  | a :: trail => ⟨.node a.kind a.children, a.offset, trail⟩ :: ofTrail trail

/-- The enclosing nodes from the inside out; a node is its own first ancestor. -/
def ancestors (c : Cursor) : List Cursor :=
  if c.isNode then c :: ofTrail c.trail else ofTrail c.trail

def root (c : Cursor) : Cursor := (ofTrail c.trail).getLastD c

/-- The child at index `i`. -/
def child? (c : Cursor) (i : Nat) : Option Cursor :=
  match c.tree with
  | .token .. => none
  | .node k cs => cs[i]?.map fun t =>
    { tree := t
      offset := c.offset + Tree.lengthAll (cs.take i)
      trail := ⟨k, cs, c.offset, i⟩ :: c.trail }

def nth? (c : Cursor) (i : Int) : Option Cursor := if i < 0 then none else c.child? i.toNat

/-- The places of `rest`, the children of a node from `index` on, which starts at `offset`. -/
def placesFrom (c : Cursor) (k : Kind) (cs : List Tree) (index offset : Nat) :
    List Tree → List Cursor
  | [] => []
  | t :: rest =>
    ⟨t, offset, ⟨k, cs, c.offset, index⟩ :: c.trail⟩ ::
      placesFrom c k cs (index + 1) (offset + t.length) rest

def children (c : Cursor) : List Cursor :=
  match c.tree with
  | .token .. => []
  | .node k cs => placesFrom c k cs 0 c.offset cs

def childNodes (c : Cursor) : List Cursor := c.children.filter isNode

def firstChildNode? (c : Cursor) : Option Cursor := c.childNodes.head?

def next? (c : Cursor) : Option Cursor := c.parent?.bind (·.child? (c.index + 1))

def prev? (c : Cursor) : Option Cursor := c.parent?.bind (·.nth? (c.index - 1))

/-- Follows child indices downwards. -/
def descend? (c : Cursor) : List Int → Option Cursor
  | [] => some c
  | i :: path => (c.nth? i).bind (descend? · path)

@[simp] theorem map_tree_placesFrom (c : Cursor) (k : Kind) (cs : List Tree) (rest : List Tree) :
    ∀ index offset, (placesFrom c k cs index offset rest).map tree = rest := by
  induction rest with
  | nil => intro _ _; rfl
  | cons t rest ih => intro index offset; simp [placesFrom, ih]

@[simp] theorem map_tree_children (c : Cursor) : c.children.map tree = c.tree.children := by
  unfold children
  split <;> rename_i h <;> simp [h, Tree.children]

theorem totalWeight_children (c : Cursor) :
    totalWeight (·.tree.weight) c.children = totalWeight Tree.weight c.tree.children := by
  rw [← map_tree_children, totalWeight_map]
  rfl

/-- The places still ahead of a traversal that keeps the unfinished child lists, innermost first;
each comes with its depth, which is the height of the stack. -/
def walkFrom (stack : List (List Cursor)) : List (Cursor × Nat) :=
  match stack with
  | [] => []
  | [] :: stack => walkFrom stack
  | (c :: cs) :: stack =>
    match h : c.tree with
    | .token .. => (c, stack.length + 1) :: walkFrom (cs :: stack)
    | .node .. => (c, stack.length + 1) :: walkFrom (c.children :: cs :: stack)
termination_by stackWeight (·.tree.weight) stack
decreasing_by
  · simp
  · simp [h]
  · simp [totalWeight_children, Tree.children, h]; omega

/-- The place and everything below it in pre-order, each with its depth below `c`. -/
def walk (c : Cursor) : List (Cursor × Nat) := (c, 0) :: walkFrom [c.children]

def descendants (c : Cursor) : List Cursor := c.walk.map Prod.fst

def tokens (c : Cursor) : List Cursor := c.descendants.filter isToken

end Cursor
end LosslessTree
