import LosslessTree.Tree.Basic

/-! Structural fingerprints and equality. A fingerprint may send different trees to one number:
equality looks at it first and then at the structure, so collisions do no harm. -/
namespace LosslessTree

structure Fingerprint where
  token : Kind → Bytes → UInt64
  node : Kind → List UInt64 → UInt64

namespace Fingerprint

def mix (h x : UInt64) : UInt64 := (h ^^^ x) * 0x100000001B3

/-- The fingerprint used when nothing else is asked for. -/
def standard : Fingerprint where
  token k s := s.foldl (fun h b => mix h b.toUInt64) (mix (mix 0xCBF29CE484222325 0x74) k.toUInt64)
  node k cs := cs.foldl mix (mix (mix 0xCBF29CE484222325 0x6E) k.toUInt64)

end Fingerprint

/-- A tree with the fingerprint of every element and the length of every node written beside it. -/
inductive Marked where
  | token (hash : UInt64) (kind : Kind) (text : Bytes)
  | node (hash : UInt64) (kind : Kind) (length : Nat) (children : List Marked)

namespace Marked

def hash : Marked → UInt64
  | .token h _ _ => h
  | .node h _ _ _ => h

def length : Marked → Nat
  | .token _ _ s => s.length
  | .node _ _ n _ => n

mutual
/-- Structural equality, with fingerprints, lengths and child counts compared before children. -/
def equal : Marked → Marked → Bool
  | .token h k s, .token i l t => h == i && k == l && s == t
  | .node h k n cs, .node i l m ds =>
    h == i && k == l && n == m && cs.length == ds.length && equalAll cs ds
  | _, _ => false
def equalAll : List Marked → List Marked → Bool
  | c :: cs, d :: ds => c.equal d && equalAll cs ds
  | _, _ => true
end

end Marked

namespace Tree

mutual
def mark (f : Fingerprint) : Tree → Marked
  | .token k s => .token (f.token k s) k s
  | .node k cs =>
    let children := markAll f cs
    .node (f.node k (children.map Marked.hash)) k ((children.map Marked.length).foldl (· + ·) 0) children
def markAll (f : Fingerprint) : List Tree → List Marked
  | [] => []
  | c :: cs => c.mark f :: markAll f cs
end

def fingerprint (f : Fingerprint) (t : Tree) : UInt64 := (t.mark f).hash

/-- Structural equality, as seen through a fingerprint. -/
def equal (f : Fingerprint) (a b : Tree) : Bool := (a.mark f).equal (b.mark f)

end Tree
end LosslessTree
