import LosslessTree.Cursor.Basic

/-! Typed views: looking at a place as one of a kind, and finding the first or every such place. A
mismatch is an ordinary outcome on partly parsed text, never an error. -/
namespace LosslessTree.Cursor

def isNodeOf (kind : Kind) (c : Cursor) : Bool := c.isNode && c.kind == kind

def cast? (kind : Kind) (c : Cursor) : Option Cursor := if c.isNodeOf kind then some c else none

/-- The first child node of a kind. -/
def childOf? (kind : Kind) (c : Cursor) : Option Cursor := c.childNodes.find? (isNodeOf kind)

def childrenOf (kind : Kind) (c : Cursor) : List Cursor := c.childNodes.filter (isNodeOf kind)

/-- The first direct child token of a kind. -/
def tokenOf? (kind : Kind) (c : Cursor) : Option Cursor :=
  c.children.find? fun d => d.isToken && d.kind == kind

/-- Every node of a kind below the place, itself included. -/
def descendantsOf (kind : Kind) (c : Cursor) : List Cursor := c.descendants.filter (isNodeOf kind)

end LosslessTree.Cursor
