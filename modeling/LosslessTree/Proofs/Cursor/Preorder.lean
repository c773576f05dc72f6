import LosslessTree.Cursor.Dump
import LosslessTree.Cursor.Search
import LosslessTree.Proofs.Tree.Content

/-! The elements of a tree in pre-order, each with its depth and the offset at which it starts. A walk, which keeps
a stack of unfinished child lists, meets just these, and the places where they stand are those of a recursion. -/
namespace LosslessTree

/-- An element of a tree as a walk meets it. -/
structure Visit where
  depth : Nat
  offset : Nat
  tree : Tree

namespace Tree

mutual
/-- The elements of a tree that stands at some depth and starts at `offset`. -/
def preorder (depth offset : Nat) : Tree → List Visit
  | .token k s => [⟨depth, offset, .token k s⟩]
  | .node k cs => ⟨depth, offset, .node k cs⟩ :: preorderAll (depth + 1) offset cs
def preorderAll (depth offset : Nat) : List Tree → List Visit
  | [] => []
  | c :: cs => c.preorder depth offset ++ preorderAll depth (offset + c.length) cs
end

/-- A tree is met before what is in it. -/
lemma exists_preorder (depth offset : Nat) (t : Tree) :
    ∃ below, t.preorder depth offset = ⟨depth, offset, t⟩ :: below := by
  cases t with
  | token k s => exact ⟨[], rfl⟩
  | node k cs => exact ⟨preorderAll (depth + 1) offset cs, rfl⟩

lemma depth_le_of_forall {depth offset : Nat} {cs : List Tree} {v : Visit}
    (ih : ∀ c ∈ cs, ∀ depth offset, v ∈ c.preorder depth offset → depth ≤ v.depth)
    (hv : v ∈ preorderAll depth offset cs) : depth ≤ v.depth := by
  induction cs generalizing offset with
  | nil => simp [preorderAll] at hv
  | cons c cs ihs =>
    obtain ⟨hc, hcs⟩ := List.forall_mem_cons.mp ih
    rw [preorderAll, List.mem_append] at hv
    rcases hv with hv | hv
    · exact hc depth offset hv
    · exact ihs hcs hv

/-- What is in a tree stands no higher than the tree. -/
lemma depth_le_of_mem_preorder {depth offset : Nat} {t : Tree} {v : Visit} (hv : v ∈ t.preorder depth offset) :
    depth ≤ v.depth := by
  induction t generalizing depth offset with
  | token k s =>
    obtain rfl := List.mem_singleton.mp hv
    exact Nat.le_refl depth
  | node k cs ih =>
    rcases List.mem_cons.mp hv with rfl | hv
    · exact Nat.le_refl depth
    · have hbelow : depth + 1 ≤ v.depth :=
        depth_le_of_forall (fun c hc depth offset hv => ih c hc hv) hv
      omega

lemma depth_le_of_mem_preorderAll {depth offset : Nat} {cs : List Tree} {v : Visit}
    (hv : v ∈ preorderAll depth offset cs) : depth ≤ v.depth :=
  depth_le_of_forall (fun _ _ _ _ => depth_le_of_mem_preorder) hv

end Tree

namespace Cursor

variable {c d : Cursor}

def visit (c : Cursor) (depth : Nat) : Visit := ⟨depth, c.offset, c.tree⟩

/-- The elements of a place and below it. -/
def elements (depth : Nat) (c : Cursor) : List Visit := c.tree.preorder depth c.offset

lemma elements_placesFrom (c : Cursor) (k : Kind) (cs : List Tree) (depth index offset : Nat) (rest : List Tree) :
    (placesFrom c k cs index offset rest).flatMap (elements depth) = Tree.preorderAll depth offset rest := by
  induction rest generalizing index offset with
  | nil => rfl
  | cons t rest ih => simp [placesFrom, elements, Tree.preorderAll, ih]

lemma elements_children (c : Cursor) (depth : Nat) :
    c.children.flatMap (elements depth) = Tree.preorderAll depth c.offset c.tree.children := by
  unfold children
  split
  · next h => simp [h, Tree.children, Tree.preorderAll]
  · next h =>
    rw [elements_placesFrom, h]
    rfl

/-- The children of a place are smaller than it. -/
lemma weight_lt_of_mem_children (h : d ∈ c.children) : d.tree.weight < c.tree.weight := by
  have hd : d.tree ∈ c.tree.children := map_tree_children c ▸ List.mem_map_of_mem h
  exact Tree.weight_lt_of_mem_children hd

/-- A place and all that is below it, by recursion, each with its depth. -/
def preorder (depth : Nat) (c : Cursor) : List (Cursor × Nat) :=
  (c, depth) :: c.children.attach.flatMap fun d => preorder (depth + 1) d.1
termination_by c.tree.weight
decreasing_by exact weight_lt_of_mem_children d.2

lemma preorder_eq (depth : Nat) (c : Cursor) :
    c.preorder depth = (c, depth) :: c.children.flatMap (preorder (depth + 1)) := by
  rw [preorder, List.flatMap_subtype fun d _ => rfl, List.unattach_attach]

/-- Induction down a tree, from the children of a place to the place. -/
@[elab_as_elim]
theorem induction {motive : Cursor → Prop} (step : ∀ c, (∀ d ∈ c.children, motive d) → motive c) (c : Cursor) :
    motive c :=
  step c fun d _ => induction step d
termination_by c.tree.weight
decreasing_by exact weight_lt_of_mem_children ‹_›

/-- What lies ahead of a walk: the height of the stack is the depth of the innermost places. -/
def ahead : List (List Cursor) → List (Cursor × Nat)
  | [] => []
  | cs :: stack => cs.flatMap (preorder (stack.length + 1)) ++ ahead stack

lemma walkFrom_eq_ahead (stack : List (List Cursor)) : walkFrom stack = ahead stack := by
  fun_induction walkFrom stack with
  | case1 => rfl
  | case2 stack ih => exact ih
  | case3 c cs stack k s hc ih =>
    have hchildren : c.children = [] := by simp [children, hc]
    rw [ih]
    simp [ahead, preorder_eq _ c, hchildren]
  | case4 c cs stack k ts hc ih =>
    -- the children are one level deeper, and so is the stack by then
    rw [ih]
    simp [ahead, preorder_eq _ c]

/-- The walk with a stack is the recursive one. -/
theorem walk_eq_preorder (c : Cursor) : c.walk = c.preorder 0 := by
  rw [walk, walkFrom_eq_ahead, preorder_eq]
  simp [ahead]

lemma map_visit_preorder (depth : Nat) (c : Cursor) :
    (c.preorder depth).map (fun p => p.1.visit p.2) = c.elements depth := by
  induction c using induction generalizing depth with
  | step c ih =>
    rw [preorder_eq, List.map_cons, List.map_flatMap, List.flatMap_congr fun d hd => ih d hd (depth + 1),
      elements_children]
    cases h : c.tree with
    | token k s => simp [elements, visit, h, Tree.children, Tree.preorderAll, Tree.preorder]
    | node k cs => simp [elements, visit, h, Tree.children, Tree.preorder]

/-- A walk meets the elements of the tree in pre-order. -/
theorem map_visit_walk (c : Cursor) : c.walk.map (fun p => p.1.visit p.2) = c.tree.preorder 0 c.offset := by
  rw [walk_eq_preorder, map_visit_preorder, elements]

end Cursor
end LosslessTree
