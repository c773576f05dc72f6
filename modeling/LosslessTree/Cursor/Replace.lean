import LosslessTree.Cursor.Basic
import LosslessTree.Tree.Update

/-! Replacing the subtree at a place. Only the nodes on the trail are rebuilt; the tree that the cursor
looks into is not changed. -/
namespace LosslessTree

inductive ReplaceError where
  | child (parent : TextRange) (cause : UpdateError)
  /-- A node or token was to be replaced by nothing. -/
  | emptyNode (range : TextRange)
  | emptyToken (range : TextRange)
  deriving DecidableEq, Repr

namespace ReplaceError

def cause : ReplaceError → UpdateError
  | .child _ e => e
  | .emptyNode _ | .emptyToken _ => .emptySlot

def message : ReplaceError → Bytes
  | .child r e => "replace child of " ++ r.render ++ ": " ++ e.message
  | .emptyNode r => "replace node at " ++ r.render ++ ": " ++ UpdateError.emptySlot.message
  | .emptyToken r => "replace token at " ++ r.render ++ ": " ++ UpdateError.emptySlot.message

end ReplaceError

namespace Cursor

/-- The whole tree with `t` in the place of the subtree. -/
def rebuild (c : Cursor) (t : Tree) : Tree :=
  c.trail.foldl (fun below a => .node a.kind (a.children.set a.index below)) t

/-- The whole tree after a child of the node was replaced. -/
def replaceChild (c : Cursor) (index : Int) (slot : Slot) : Except ReplaceError Tree :=
  match Tree.replaceChild c.kind c.tree.children index slot with
  | .error e => .error (.child c.range e)
  | .ok t => .ok (c.rebuild t)

/-- The whole tree after the node was replaced. -/
def replaceNode (c : Cursor) (slot : Slot) : Except ReplaceError Tree :=
  match slot with
  | none => .error (.emptyNode c.range)
  | some t => .ok (c.rebuild t)

/-- The whole tree after the token was replaced. -/
def replaceToken (c : Cursor) (slot : Slot) : Except ReplaceError Tree :=
  match slot with
  | none => .error (.emptyToken c.range)
  | some t => .ok (c.rebuild t)

/-- The whole tree after the token got another text. -/
def withText (c : Cursor) (text : Bytes) : Tree := c.rebuild (.token c.kind text)

end Cursor
end LosslessTree
