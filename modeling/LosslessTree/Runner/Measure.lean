import LosslessTree.Tree.Basic

/-! Measuring trees: bytes, nodes, tokens, nesting and ERROR nodes. -/
namespace LosslessTree

structure TreeStats where
  bytes : Nat := 0
  nodes : Nat := 0
  tokens : Nat := 0
  depth : Nat := 0
  errorNodes : Nat := 0
  deriving DecidableEq, Repr

namespace TreeStats

/-- The name that marks a kind of node as an error. -/
def errorName : String := "ERROR"

def leafCount (cs : List Tree) : Nat := cs.countP Tree.isToken

/-- The nodes among the children of a node at some depth. -/
def nodesAt (depth : Nat) : List Tree → List (Nat × Kind × List Tree)
  | [] => []
  | .token .. :: cs => nodesAt depth cs
  | .node k ds :: cs => (depth, k, ds) :: nodesAt depth cs

/-- The nodes among the children of a node weigh no more than the children. -/
theorem stackWeight_nodesAt_le (depth : Nat) (cs : List Tree) :
    stackWeight Tree.weight ((nodesAt depth cs).map (·.2.2)) ≤ totalWeight Tree.weight cs := by
  induction cs with
  | nil => simp [nodesAt]
  | cons c cs ih =>
    cases c with
    | token _ _ => simp [nodesAt]; omega
    | node _ _ => simp [nodesAt]; omega

/-- Works off a list of nodes, each with its depth; the last child found comes first. -/
def measureFrom (names : KindNames) (s : TreeStats) (worklist : List (Nat × Kind × List Tree)) :
    TreeStats :=
  match worklist with
  | [] => s
  | (depth, k, cs) :: rest =>
    measureFrom names
      { s with
        nodes := s.nodes + 1
        tokens := s.tokens + leafCount cs
        depth := max s.depth depth
        errorNodes := if names.name k == errorName then s.errorNodes + 1 else s.errorNodes }
      ((nodesAt (depth + 1) cs).reverse ++ rest)
termination_by stackWeight Tree.weight (worklist.map (·.2.2))
decreasing_by
  have := stackWeight_nodesAt_le (depth + 1) cs
  simp
  omega

def measure (names : KindNames) (t : Tree) : TreeStats :=
  match t with
  | .token .. => { bytes := t.length, tokens := 1 }
  | .node k cs => measureFrom names { bytes := t.length } [(1, k, cs)]

end TreeStats
end LosslessTree
