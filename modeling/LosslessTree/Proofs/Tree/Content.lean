import LosslessTree.Tree.Basic
import Mathlib.Data.List.Basic
import Mathlib.Tactic.Common

/-! What a tree holds: its tokens in source order, the kinds of its nodes, and what is left of it
without the tokens of some kinds. The traversal with a stack is the recursive one. -/
namespace LosslessTree
namespace Tree

/-- Induction over trees, with the hypothesis for every child of a node. -/
@[elab_as_elim, induction_eliminator]
theorem induction {motive : Tree → Prop} (token : ∀ k s, motive (.token k s))
    (node : ∀ k cs, (∀ c ∈ cs, motive c) → motive (.node k cs)) : ∀ t, motive t
  | .token k s => token k s
  | .node k cs => node k cs fun c _ => induction token node c

mutual
/-- The tokens of a tree, by recursion. -/
def leafList : Tree → List Leaf
  | .token k s => [⟨k, s⟩]
  | .node _ cs => leafListAll cs
def leafListAll : List Tree → List Leaf
  | [] => []
  | c :: cs => c.leafList ++ leafListAll cs
end

/-- A traversal of a stack of unfinished child lists meets their tokens from the innermost out. -/
lemma leavesFrom_eq (stack : List (List Tree)) :
    leavesFrom stack = stack.flatMap leafListAll := by
  fun_induction leavesFrom stack with
  | case1 => rfl
  | case2 stack ih => simp [leafListAll, ih]
  | case3 k s cs stack ih => simp [leafListAll, leafList, ih]
  | case4 k ds cs stack ih => simp [leafListAll, leafList, ih]

theorem leaves_eq_leafList (t : Tree) : t.leaves = t.leafList := by
  simp [leaves, leavesFrom_eq, leafListAll]

lemma leafListAll_eq (cs : List Tree) : leafListAll cs = cs.flatMap leaves := by
  induction cs with
  | nil => rfl
  | cons c cs ih => simp [leafListAll, leaves_eq_leafList, ih]

@[simp] lemma leaves_token (k : Kind) (s : Bytes) : (token k s).leaves = [⟨k, s⟩] := by
  simp [leaves_eq_leafList, leafList]

@[simp] lemma leaves_node (k : Kind) (cs : List Tree) : (node k cs).leaves = cs.flatMap leaves := by
  rw [leaves_eq_leafList, leafList, leafListAll_eq]

mutual
/-- The kinds of the nodes of a tree, each as often as it occurs. -/
def nodeKinds : Tree → List Kind
  | .token .. => []
  | .node k cs => k :: nodeKindsAll cs
def nodeKindsAll : List Tree → List Kind
  | [] => []
  | c :: cs => c.nodeKinds ++ nodeKindsAll cs
end

lemma nodeKindsAll_eq (cs : List Tree) : nodeKindsAll cs = cs.flatMap nodeKinds := by
  induction cs with
  | nil => rfl
  | cons c cs ih => simp [nodeKindsAll, ih]

@[simp] lemma nodeKinds_token (k : Kind) (s : Bytes) : (token k s).nodeKinds = [] := rfl

@[simp] lemma nodeKinds_node (k : Kind) (cs : List Tree) :
    (node k cs).nodeKinds = k :: cs.flatMap nodeKinds := by
  rw [nodeKinds, nodeKindsAll_eq]

mutual
/-- A tree and all that is in it, each after what is below it. -/
def subtrees : Tree → List Tree
  | .token k s => [.token k s]
  | .node k cs => subtreesAll cs ++ [.node k cs]
def subtreesAll : List Tree → List Tree
  | [] => []
  | c :: cs => c.subtrees ++ subtreesAll cs
end

lemma subtreesAll_eq (cs : List Tree) : subtreesAll cs = cs.flatMap subtrees := by
  induction cs with
  | nil => rfl
  | cons c cs ih => simp [subtreesAll, ih]

@[simp] lemma subtrees_token (k : Kind) (s : Bytes) : (token k s).subtrees = [.token k s] := rfl

@[simp] lemma subtrees_node (k : Kind) (cs : List Tree) :
    (node k cs).subtrees = cs.flatMap subtrees ++ [.node k cs] := by
  rw [subtrees, subtreesAll_eq]

/-- No node of this kind is among the trees or below them. -/
def Lacks (k : Kind) (ts : List Tree) : Prop := k ∉ ts.flatMap nodeKinds

@[simp] lemma lacks_nil (k : Kind) : Lacks k [] := by simp [Lacks]

@[simp] lemma lacks_append (k : Kind) (ts us : List Tree) : Lacks k (ts ++ us) ↔ Lacks k ts ∧ Lacks k us := by
  simp [Lacks]

@[simp] lemma lacks_node_cons (k l : Kind) (ts us : List Tree) :
    Lacks k (.node l ts :: us) ↔ k ≠ l ∧ Lacks k ts ∧ Lacks k us := by
  simp [Lacks]

@[simp] lemma lacks_token_cons (k l : Kind) (s : Bytes) (ts : List Tree) :
    Lacks k (.token l s :: ts) ↔ Lacks k ts := by
  simp [Lacks]

mutual
/-- What is left of a tree without the tokens of some kinds: nothing of such a token, and every node. -/
def prune (dropped : Kind → Bool) : Tree → List Tree
  | .token k s => if dropped k then [] else [.token k s]
  | .node k cs => [.node k (pruneAll dropped cs)]
def pruneAll (dropped : Kind → Bool) : List Tree → List Tree
  | [] => []
  | c :: cs => c.prune dropped ++ pruneAll dropped cs
end

lemma pruneAll_eq (dropped : Kind → Bool) (cs : List Tree) :
    pruneAll dropped cs = cs.flatMap (prune dropped) := by
  induction cs with
  | nil => rfl
  | cons c cs ih => simp [pruneAll, ih]

@[simp] lemma prune_token (dropped : Kind → Bool) (k : Kind) (s : Bytes) :
    (token k s).prune dropped = if dropped k then [] else [.token k s] := rfl

@[simp] lemma prune_node (dropped : Kind → Bool) (k : Kind) (cs : List Tree) :
    (node k cs).prune dropped = [.node k (cs.flatMap (prune dropped))] := by
  rw [prune, pruneAll_eq]

/-- Dropping tokens keeps every node. -/
lemma nodeKinds_prune (dropped : Kind → Bool) (t : Tree) :
    (t.prune dropped).flatMap nodeKinds = t.nodeKinds := by
  induction t with
  | token k s => by_cases h : dropped k <;> simp [h]
  | node k cs ih =>
    have hc : (cs.flatMap (prune dropped)).flatMap nodeKinds = cs.flatMap nodeKinds := by
      rw [List.flatMap_assoc]
      exact List.flatMap_congr ih
    simp [hc]

end Tree
end LosslessTree
