import LosslessTree.Proofs.Cursor.Preorder
import LosslessTree.Proofs.Cursor.Search
import LosslessTree.Proofs.Tree.Path
import Mathlib.Logic.Relation

/-! Moving through a tree. Whatever way a cursor is moved, down, up or sideways, it stands where going
down from the root would have led it: it shows the bytes at its range and the subtree at its path, and
its parent leads back to it. -/
namespace LosslessTree

/-- The bytes of a text in a range, if the range lies within it. -/
def TextRange.slice? (r : TextRange) (text : Bytes) : Option Bytes :=
  if 0 ≤ r.start ∧ r.start ≤ r.stop ∧ r.stop ≤ text.length then
    some ((text.take r.stop.toNat).drop r.start.toNat)
  else none

lemma TextRange.slice?_append (before middle after : Bytes) :
    (TextRange.ofOffset before.length middle.length).slice? (before ++ middle ++ after) = some middle := by
  have hin : 0 ≤ (before.length : Int) ∧ (before.length : Int) ≤ before.length + middle.length ∧
      (before.length + middle.length : Int) ≤ (before ++ middle ++ after).length := by
    simp only [List.length_append]
    omega
  have hstop : ((before.length : Int) + middle.length).toNat = (before ++ middle).length := by
    rw [List.length_append]
    omega
  simp only [slice?, ofOffset, if_pos hin, hstop, Int.toNat_natCast]
  rw [List.take_left, List.drop_left]

namespace Cursor

variable {root : Tree} {c d p : Cursor} {i : Nat}

/-- The child indices that lead from the root to the place. -/
def path (c : Cursor) : List Nat := (c.trail.map Ancestor.index).reverse

def IsChild (c d : Cursor) : Prop := ∃ i, c.child? i = some d

/-- `d` is `c`, or is reached from it by going down. -/
abbrev Below : Cursor → Cursor → Prop := Relation.ReflTransGen IsChild

/-- A place of `root`: its top, or a child of a place. -/
def Placed (root : Tree) (c : Cursor) : Prop := Below (ofRoot root) c

/-- A child goes back to the place it was reached from. -/
lemma trail_of_child? (h : c.child? i = some d) :
    c.tree = .node c.kind c.tree.children ∧ d.trail = ⟨c.kind, c.tree.children, c.offset, i⟩ :: c.trail := by
  unfold child? at h
  split at h
  · cases h
  · next k cs hc =>
    obtain ⟨t, -, rfl⟩ := Option.map_eq_some_iff.mp h
    rw [kind, hc]
    exact ⟨rfl, rfl⟩

lemma parent?_of_child? (h : c.child? i = some d) : d.parent? = some c := by
  obtain ⟨hc, hd⟩ := trail_of_child? h
  rw [parent?, hd]
  simp only [← hc]

lemma index_of_child? (h : c.child? i = some d) : d.index = i := by
  rw [index, (trail_of_child? h).2]
  rfl

lemma path_of_child? (h : c.child? i = some d) : d.path = c.path ++ [i] := by
  rw [path, (trail_of_child? h).2, List.map_cons, List.reverse_cons]
  rfl

lemma ofTrail_of_child? (h : c.child? i = some d) : ofTrail d.trail = c :: ofTrail c.trail := by
  obtain ⟨hc, hd⟩ := trail_of_child? h
  rw [hd, ofTrail]
  simp only [← hc]

/-- A node reaches over each of its children. -/
lemma spans_of_child? (h : c.child? i = some d) : c.Spans d.range := by
  obtain ⟨ht, hoffset⟩ := child?_eq_some h
  have hend := Tree.lengthAll_take_succ ht
  have hi : i + 1 ≤ c.tree.children.length := (List.getElem?_eq_some_iff.mp ht).1
  have hle := Tree.lengthAll_take_mono c.tree.children hi
  rw [List.take_length, ← Tree.length_of_child ht] at hle
  simp only [Spans, range, TextRange.ofOffset, length] at *
  omega

section Downwards

lemma isChild_of_nth? {n : Int} (h : c.nth? n = some d) : IsChild c d := by
  unfold nth? at h
  split_ifs at h
  exact ⟨_, h⟩

lemma getElem?_placesFrom (c : Cursor) (k : Kind) (cs rest : List Tree) (first offset : Nat) :
    (placesFrom c k cs first offset rest)[i]? = rest[i]?.map fun t =>
      ⟨t, offset + Tree.lengthAll (rest.take i), ⟨k, cs, c.offset, first + i⟩ :: c.trail⟩ := by
  induction rest generalizing i first offset with
  | nil => rfl
  | cons t rest ih =>
    cases i with
    | zero => rfl
    | succ i =>
      rw [placesFrom, List.getElem?_cons_succ, ih, List.getElem?_cons_succ, List.take_succ_cons,
        Tree.lengthAll, Nat.add_assoc, Nat.add_assoc, Nat.add_comm 1 i]

/-- The children in a row are the children one by one. -/
theorem getElem?_children (c : Cursor) (i : Nat) : c.children[i]? = c.child? i := by
  unfold children child?
  cases c.tree with
  | token k s => rfl
  | node k cs => simp only [getElem?_placesFrom, Nat.zero_add]

lemma isChild_of_mem_children (h : d ∈ c.children) : IsChild c d := by
  obtain ⟨i, hi⟩ := List.getElem?_of_mem h
  exact ⟨i, getElem?_children c i ▸ hi⟩

lemma isChild_of_childContaining? {r : TextRange} (h : c.childContaining? r = some d) : IsChild c d := by
  obtain ⟨i, -, hi⟩ := Option.bind_eq_some_iff.mp h
  exact ⟨i, hi⟩

lemma below_deepestContaining (c : Cursor) (r : TextRange) : Below c (c.deepestContaining r) := by
  fun_induction deepestContaining c r with
  | case1 c hnone => exact .refl
  | case2 c d hd hnode ih => exact ih.head (isChild_of_childContaining? hd)
  | case3 c d hd hnode => exact .single (isChild_of_childContaining? hd)

lemma below_of_covering? {r : TextRange} (h : c.covering? r = some d) : Below c d := by
  unfold covering? at h
  split_ifs at h
  cases h
  exact below_deepestContaining c r

lemma below_of_tokenAt? {o : Int} (h : c.tokenAt? o = some d) : Below c d := by
  unfold tokenAt? at h
  split_ifs at h
  exact below_of_covering? (Option.filter_eq_some_iff.mp h).1

lemma mem_children_iff : d ∈ c.children ↔ IsChild c d := by
  refine ⟨isChild_of_mem_children, fun ⟨i, hi⟩ => ?_⟩
  rw [← getElem?_children] at hi
  exact List.mem_of_getElem? hi

/-- Going down ends where it starts, or goes on from a child. -/
lemma below_iff : Below c d ↔ d = c ∨ ∃ e ∈ c.children, Below e d := by
  simp only [Below, mem_children_iff]
  rw [Relation.ReflTransGen.cases_head_iff, eq_comm]

lemma mem_map_preorder_iff {depth : Nat} : d ∈ (c.preorder depth).map Prod.fst ↔ Below c d := by
  induction c using induction generalizing depth with
  | step c ih =>
    rw [below_iff, preorder_eq, List.map_cons, List.mem_cons, List.map_flatMap, List.mem_flatMap]
    exact or_congr_right (exists_congr fun e => and_congr_right fun he => ih e he)

/-- A walk from a place meets the places below it. -/
theorem mem_descendants_iff : d ∈ c.descendants ↔ Below c d := by
  rw [descendants, walk_eq_preorder, mem_map_preorder_iff]

lemma mem_tokens_iff : d ∈ c.tokens ↔ Below c d ∧ d.isToken = true := by
  rw [tokens, List.mem_filter, mem_descendants_iff]

end Downwards

section Upwards

lemma exists_parent? (h : c.trail ≠ []) : ∃ p, c.parent? = some p := by
  unfold parent?
  cases htrail : c.trail with
  | nil => exact absurd htrail h
  | cons a trail => exact ⟨_, rfl⟩

/-- A place below the top was reached from its parent, which is a place as well. -/
lemma Placed.parent? (h : Placed root d) (hp : d.parent? = some p) :
    Placed root p ∧ p.child? d.index = some d := by
  cases h with
  | refl => cases hp
  | @tail c _ hc hd =>
    obtain ⟨i, hi⟩ := hd
    rw [parent?_of_child? hi] at hp
    cases hp
    rw [index_of_child? hi]
    exact ⟨hc, hi⟩

lemma Placed.ofTrail (h : Placed root c) : ∀ p ∈ ofTrail c.trail, Placed root p := by
  induction h with
  | refl => simp [ofRoot, Cursor.ofTrail]
  | @tail c d hc hd ih =>
    obtain ⟨i, hi⟩ := hd
    rw [ofTrail_of_child? hi, List.forall_mem_cons]
    exact ⟨hc, ih⟩

lemma Placed.ancestors (h : Placed root c) (hp : p ∈ c.ancestors) : Placed root p := by
  unfold Cursor.ancestors at hp
  split_ifs at hp
  · rcases List.mem_cons.mp hp with rfl | hp
    · exact h
    · exact h.ofTrail p hp
  · exact h.ofTrail p hp

/-- There is one way up. -/
lemma Placed.root_eq (h : Placed root c) : c.root = ofRoot root := by
  induction h with
  | refl => rfl
  | @tail c d hc hd ih =>
    obtain ⟨i, hi⟩ := hd
    rw [Cursor.root, ofTrail_of_child? hi, ← ih, Cursor.root]
    cases Cursor.ofTrail c.trail <;> rfl

end Upwards

/-- The ways to move a cursor. -/
inductive Move where
  | nthChild (i : Int)
  | children
  | childNodes
  | firstChildNode
  | parent
  | root
  | ancestors
  | nextSibling
  | prevSibling
  | childContaining (r : TextRange)
  | covering (r : TextRange)
  | tokenAt (offset : Int)
  | descendants
  | tokens

/-- The places a move leads to. -/
def Move.targets (c : Cursor) : Move → List Cursor
  | .nthChild i => (c.nth? i).toList
  | .children => c.children
  | .childNodes => c.childNodes
  | .firstChildNode => c.firstChildNode?.toList
  | .parent => c.parent?.toList
  | .root => [c.root]
  | .ancestors => c.ancestors
  | .nextSibling => c.next?.toList
  | .prevSibling => c.prev?.toList
  | .childContaining r => (c.childContaining? r).toList
  | .covering r => (c.covering? r).toList
  | .tokenAt offset => (c.tokenAt? offset).toList
  | .descendants => c.descendants
  | .tokens => c.tokens

/-- Places reached from the top of a tree by some chain of moves. -/
def Reached (root : Tree) : Cursor → Prop :=
  Relation.ReflTransGen (fun c d => ∃ m : Move, d ∈ m.targets c) (ofRoot root)

/-- No move leaves the places of the tree. -/
lemma Placed.move (h : Placed root c) (m : Move) (hd : d ∈ m.targets c) : Placed root d := by
  cases m with
  | nthChild i => exact h.tail (isChild_of_nth? (Option.mem_toList.mp hd))
  | children => exact h.tail (isChild_of_mem_children hd)
  | childNodes => exact h.tail (isChild_of_mem_children (List.mem_filter.mp hd).1)
  | firstChildNode =>
    have hmem := List.mem_of_mem_head? (Option.mem_toList.mp hd)
    exact h.tail (isChild_of_mem_children (List.mem_filter.mp hmem).1)
  | parent => exact (h.parent? (Option.mem_toList.mp hd)).1
  | root =>
    rw [List.mem_singleton.mp hd, h.root_eq]
    exact .refl
  | ancestors => exact h.ancestors hd
  | nextSibling =>
    obtain ⟨p, hp, hchild⟩ := Option.bind_eq_some_iff.mp (Option.mem_toList.mp hd)
    exact (h.parent? hp).1.tail ⟨_, hchild⟩
  | prevSibling =>
    obtain ⟨p, hp, hchild⟩ := Option.bind_eq_some_iff.mp (Option.mem_toList.mp hd)
    exact (h.parent? hp).1.tail (isChild_of_nth? hchild)
  | childContaining r => exact h.tail (isChild_of_childContaining? (Option.mem_toList.mp hd))
  | covering r => exact h.trans (below_of_covering? (Option.mem_toList.mp hd))
  | tokenAt offset => exact h.trans (below_of_tokenAt? (Option.mem_toList.mp hd))
  | descendants => exact h.trans (mem_descendants_iff.mp hd)
  | tokens => exact h.trans (mem_tokens_iff.mp hd).1

lemma Reached.placed (h : Reached root c) : Placed root c := by
  induction h with
  | refl => exact .refl
  | tail _ hmove ih =>
    obtain ⟨m, hm⟩ := hmove
    exact ih.move m hm

lemma Placed.within (h : Placed root c) : Within root c := by
  induction h with
  | refl => exact within_ofRoot root
  | tail _ hd ih =>
    obtain ⟨i, hi⟩ := hd
    exact ih.child? hi

/-- The path of a place leads to its subtree and its offset. -/
lemma Placed.at?_path (h : Placed root c) : root.at? c.path = some c.tree ∧ root.offsetAt c.path = c.offset := by
  induction h with
  | refl => exact ⟨rfl, rfl⟩
  | @tail c d _ hd ih =>
    obtain ⟨i, hi⟩ := hd
    obtain ⟨ht, hoffset⟩ := child?_eq_some hi
    rw [path_of_child? hi, Tree.at?_append, ih.1, Tree.offsetAt_append ih.1, ih.2, Tree.offsetAt_cons ht, hoffset]
    exact ⟨by rw [Option.bind_some, Tree.at?, ht]; rfl, rfl⟩

/-- A place shows the bytes at its range. -/
lemma Within.slice?_text (h : Within root c) : c.range.slice? root.text = some c.text := by
  have hlength : c.length = c.text.length := Tree.length_eq_length_text c.tree
  rw [h.text_eq, range, h.offset, hlength]
  exact TextRange.slice?_append _ _ _

/-- A cursor stands where it says: it shows the bytes at its range and the subtree at its path, and its
parent leads back to it. -/
structure Positioned (root : Tree) (c : Cursor) : Prop where
  text : c.range.slice? root.text = some c.text
  subtree : root.at? c.path = some c.tree
  top : c.isRoot = true → c.path = []
  parent : c.isRoot = false → ∃ p, c.parent? = some p ∧ c.path = p.path ++ [c.index] ∧
    p.range.containsRange c.range = true ∧ p.nth? c.index = some c

/-- Every chain of moves from the top of a tree ends at a place that is positioned right. -/
theorem reached_positioned (h : Reached root c) : Positioned root c := by
  have hplaced := h.placed
  refine ⟨hplaced.within.slice?_text, hplaced.at?_path.1, ?_, ?_⟩
  · intro htop
    rw [path, List.isEmpty_iff.mp htop]
    rfl
  · intro hbelow
    obtain ⟨p, hp⟩ := exists_parent? (c := c) (by simpa [isRoot] using hbelow)
    obtain ⟨-, hchild⟩ := hplaced.parent? hp
    refine ⟨p, hp, path_of_child? hchild, containsRange_range_iff.mpr (spans_of_child? hchild), ?_⟩
    rw [nth?, if_neg (by omega), Int.toNat_natCast]
    exact hchild

/-- A tree in which an empty token, an empty node and another token start at one offset. -/
def crowded : Tree := .node 0 [.token 1 [0x61], .node 2 [.token 3 [], .node 4 [], .token 5 [0x62, 0x63]]]

/-- The node in it that holds them. -/
def crowdedNode : Cursor :=
  ⟨.node 2 [.token 3 [], .node 4 [], .token 5 [0x62, 0x63]], 1, [⟨0, crowded.children, 0, 1⟩]⟩

/-- A child of that node. -/
def crowdedChild (t : Tree) (i : Nat) : Cursor :=
  ⟨t, 1, ⟨2, crowdedNode.tree.children, 1, i⟩ :: crowdedNode.trail⟩

theorem reached_positioned_crowded :
    Reached crowded (crowdedChild (.token 5 [0x62, 0x63]) 2) ∧
      Positioned crowded (crowdedChild (.token 5 [0x62, 0x63]) 2) := by
  have hnode : crowdedNode ∈ (Move.nthChild 1).targets (ofRoot crowded) := List.mem_singleton.mpr rfl
  have hempty : crowdedChild (.node 4 []) 1 ∈ Move.firstChildNode.targets crowdedNode :=
    List.mem_singleton.mpr rfl
  have hnext : crowdedChild (.token 5 [0x62, 0x63]) 2 ∈
      Move.nextSibling.targets (crowdedChild (.node 4 []) 1) := List.mem_singleton.mpr rfl
  have hreached : Reached crowded (crowdedChild (.token 5 [0x62, 0x63]) 2) :=
    ((Relation.ReflTransGen.single ⟨_, hnode⟩).tail ⟨_, hempty⟩).tail ⟨_, hnext⟩
  exact ⟨hreached, reached_positioned hreached⟩

end Cursor
end LosslessTree
