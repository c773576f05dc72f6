import LosslessTree.Cursor.Replace
import LosslessTree.Edit.Tree
import LosslessTree.Proofs.Tree.Content

/-! Where a cursor stands. The trail splits the tokens of the whole tree into those before the place and
those after it; whatever is put into the place comes between them. -/
namespace LosslessTree

namespace Tree

@[simp] lemma text_token (k : Kind) (s : Bytes) : (token k s).text = s := by simp [text]

@[simp] lemma text_node (k : Kind) (cs : List Tree) : (node k cs).text = cs.flatMap text := by
  rw [text, leaves_node, List.flatMap_assoc]
  rfl

lemma lengthAll_append (as bs : List Tree) : lengthAll (as ++ bs) = lengthAll as + lengthAll bs := by
  induction as with
  | nil => exact (Nat.zero_add _).symm
  | cons a as ih => rw [List.cons_append, lengthAll, ih, lengthAll, Nat.add_assoc]

lemma lengthAll_of_forall {cs : List Tree} (h : ∀ c ∈ cs, c.length = c.text.length) :
    lengthAll cs = (cs.flatMap text).length := by
  induction cs with
  | nil => rfl
  | cons c cs ih =>
    obtain ⟨hc, hcs⟩ := List.forall_mem_cons.mp h
    rw [lengthAll, hc, ih hcs, List.flatMap_cons, List.length_append]

/-- The length of a tree is that of its text. -/
theorem length_eq_length_text (t : Tree) : t.length = t.text.length := by
  induction t with
  | token k s => rw [length, text_token]
  | node k cs ih => rw [length, text_node, lengthAll_of_forall ih]

lemma lengthAll_eq_length_text (cs : List Tree) : lengthAll cs = (cs.flatMap text).length :=
  lengthAll_of_forall fun c _ => length_eq_length_text c

/-- A subtree between the children before it and those after it. -/
lemma flatMap_leaves_set {cs : List Tree} {i : Nat} (hi : i < cs.length) (t : Tree) :
    (cs.set i t).flatMap leaves =
      (cs.take i).flatMap leaves ++ t.leaves ++ (cs.drop (i + 1)).flatMap leaves := by
  rw [List.set_eq_take_append_cons_drop, if_pos hi]
  simp

end Tree

namespace Cursor

/-- The tokens before a place, from those farthest out. -/
def leavesBefore : List Ancestor → List Leaf
  | [] => []
  | a :: trail => leavesBefore trail ++ (a.children.take a.index).flatMap Tree.leaves

/-- The tokens after a place. -/
def leavesAfter : List Ancestor → List Leaf
  | [] => []
  | a :: trail => (a.children.drop (a.index + 1)).flatMap Tree.leaves ++ leavesAfter trail

/-- The text before a place. -/
def textBefore (c : Cursor) : Bytes := (leavesBefore c.trail).flatMap Leaf.text

/-- The text after a place. -/
def textAfter (c : Cursor) : Bytes := (leavesAfter c.trail).flatMap Leaf.text

/-- Each node on the trail has a child at the index that leads on. -/
def Sturdy (trail : List Ancestor) : Prop := ∀ a ∈ trail, a.index < a.children.length

lemma rebuild_cons (t : Tree) (o : Nat) (a : Ancestor) (trail : List Ancestor) (u : Tree) :
    (Cursor.mk t o (a :: trail)).rebuild u =
      (Cursor.mk t o trail).rebuild (.node a.kind (a.children.set a.index u)) := rfl

/-- Whatever is put into a place stands between the tokens before and after it. -/
theorem leaves_rebuild {c : Cursor} (h : Sturdy c.trail) (u : Tree) :
    (c.rebuild u).leaves = leavesBefore c.trail ++ u.leaves ++ leavesAfter c.trail := by
  obtain ⟨t, o, trail⟩ := c
  induction trail generalizing u with
  | nil => simp [rebuild, leavesBefore, leavesAfter]
  | cons a trail ih =>
    obtain ⟨ha, htrail⟩ := List.forall_mem_cons.mp h
    rw [rebuild_cons, ih _ htrail, Tree.leaves_node, Tree.flatMap_leaves_set ha]
    simp [leavesBefore, leavesAfter]

lemma text_rebuild {c : Cursor} (h : Sturdy c.trail) (u : Tree) :
    (c.rebuild u).text = c.textBefore ++ u.text ++ c.textAfter := by
  rw [Tree.text, leaves_rebuild h, List.flatMap_append, List.flatMap_append]
  rfl

lemma isNode_rebuild {c : Cursor} {u : Tree} (h : c.trail ≠ [] ∨ u.isNode = true) :
    (c.rebuild u).isNode = true := by
  obtain ⟨t, o, trail⟩ := c
  induction trail generalizing u with
  | nil => exact h.resolve_left (· rfl)
  | cons a trail ih => exact ih (.inr rfl)

/-- A cursor that stands in `root`, at the offset it says. -/
structure Within (root : Tree) (c : Cursor) : Prop where
  whole : c.rebuild c.tree = root
  sturdy : Sturdy c.trail
  offset : c.offset = c.textBefore.length

variable {root : Tree} {c d : Cursor}

lemma within_ofRoot (root : Tree) : Within root (ofRoot root) :=
  ⟨rfl, by simp [Sturdy, ofRoot], rfl⟩

/-- The child at an index stands after its elder siblings. -/
lemma Within.child (h : Within root c) {k : Kind} {cs : List Tree} (hc : c.tree = .node k cs) {i : Nat}
    {t : Tree} (ht : cs[i]? = some t) :
    Within root ⟨t, c.offset + Tree.lengthAll (cs.take i), ⟨k, cs, c.offset, i⟩ :: c.trail⟩ := by
  obtain ⟨hi, rfl⟩ := List.getElem?_eq_some_iff.mp ht
  refine ⟨?_, List.forall_mem_cons.mpr ⟨hi, h.sturdy⟩, ?_⟩
  · rw [rebuild_cons, List.set_getElem_self, ← hc]
    exact h.whole
  · rw [h.offset, Tree.lengthAll_eq_length_text, ← List.length_append]
    simp only [textBefore, leavesBefore, List.flatMap_append, List.flatMap_assoc]
    rfl

lemma Within.child? (h : Within root c) {i : Nat} (hd : c.child? i = some d) : Within root d := by
  unfold Cursor.child? at hd
  split at hd
  · cases hd
  · next k cs hc =>
    obtain ⟨t, ht, rfl⟩ := Option.map_eq_some_iff.mp hd
    exact h.child hc ht

lemma Within.leaves_eq (h : Within root c) :
    root.leaves = leavesBefore c.trail ++ c.tree.leaves ++ leavesAfter c.trail := by
  rw [← leaves_rebuild h.sturdy, h.whole]

/-- The whole text, cut at the place. -/
theorem Within.text_eq (h : Within root c) : root.text = c.textBefore ++ c.text ++ c.textAfter := by
  rw [← h.whole, text_rebuild h.sturdy]
  rfl

/-- Only the root has no trail. -/
lemma Within.trail_ne_nil (h : Within root c) (hroot : root.isNode = true) (hc : c.isToken = true) :
    c.trail ≠ [] := by
  intro hnil
  have hw := h.whole
  rw [rebuild, hnil, List.foldl_nil] at hw
  rw [isToken, hw, Tree.isToken, hroot] at hc
  cases hc

/-- Taking a subtree away leaves the tokens before and after it. -/
theorem leaves_removeAt {c : Cursor} (h : Sturdy c.trail) (hc : c.trail ≠ []) :
    (TextEdit.removeAt c).leaves = leavesBefore c.trail ++ leavesAfter c.trail := by
  obtain ⟨t, o, trail⟩ := c
  cases trail with
  | nil => contradiction
  | cons a trail =>
    have htrail : Sturdy trail := (List.forall_mem_cons.mp h).2
    change (Cursor.rebuild ⟨_, a.offset, trail⟩ (.node a.kind (a.children.eraseIdx a.index))).leaves = _
    rw [leaves_rebuild htrail, Tree.leaves_node, List.eraseIdx_eq_take_drop_succ]
    simp [leavesBefore, leavesAfter]

lemma isNode_removeAt {c : Cursor} (hc : c.trail ≠ []) : (TextEdit.removeAt c).isNode = true := by
  obtain ⟨t, o, trail⟩ := c
  cases trail with
  | nil => contradiction
  | cons a trail => exact isNode_rebuild (.inr rfl)

end Cursor
end LosslessTree
