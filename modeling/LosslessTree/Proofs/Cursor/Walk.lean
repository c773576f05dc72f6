import LosslessTree.Proofs.Cursor.Navigation
import Mathlib.Data.List.Nodup

/-! Walking through a tree. The walk leaves out no place below the one it starts from and meets none twice, and it
meets the tokens in the order of the text, so that the last one it meets has no token after it. -/
namespace LosslessTree.Cursor

variable {root : Tree} {c d e x : Cursor} {i j depth : Nat} {p : Cursor × Nat} {cs ds : List Cursor}
  {stack : List (List Cursor)} {before mid stop : List Leaf}

/-- There is nothing below a token. -/
lemma Below.eq_of_isToken (h : Below c d) (hc : c.isToken = true) : d = c := by
  refine (below_iff.mp h).resolve_right ?_
  rintro ⟨e, he, -⟩
  cases ht : c.tree with
  | token k s => simp [children, ht] at he
  | node k ts => simp [isToken, Tree.isToken, Tree.isNode, ht] at hc

/-- What is below a place has the trail of the place at the end of its own. -/
lemma Below.trail_suffix (h : Below c d) : c.trail <:+ d.trail := by
  induction h with
  | refl => exact List.suffix_rfl
  | tail _ hchild ih =>
    obtain ⟨i, hi⟩ := hchild
    rw [(trail_of_child? hi).2]
    exact ih.trans (List.suffix_cons _ _)

lemma length_trail_of_child? (h : c.child? i = some d) : d.trail.length = c.trail.length + 1 := by
  rw [(trail_of_child? h).2, List.length_cons]

/-- The depth of a place in a walk is the number of nodes that lie between. -/
lemma length_trail_of_mem_preorder (h : p ∈ c.preorder depth) :
    p.1.trail.length + depth = c.trail.length + p.2 := by
  induction c using induction generalizing depth with
  | step c ih =>
    rw [preorder_eq, List.mem_cons, List.mem_flatMap] at h
    rcases h with rfl | ⟨d, hd, hp⟩
    · rfl
    · obtain ⟨i, hi⟩ := isChild_of_mem_children hd
      have hchild := length_trail_of_child? hi
      have hbelow := ih d hd hp
      omega

/-- Two children of a place have no place below them in common. -/
lemma index_eq_of_below (hd : c.child? i = some d) (he : c.child? j = some e) (hdx : Below d x) (hex : Below e x) :
    i = j := by
  have hlength : d.trail.length = e.trail.length := by
    rw [length_trail_of_child? hd, length_trail_of_child? he]
  have htrail : d.trail = e.trail :=
    (List.suffix_of_suffix_length_le hdx.trail_suffix hex.trail_suffix (Nat.le_of_eq hlength)).eq_of_length hlength
  rw [← index_of_child? hd, ← index_of_child? he, index, index, htrail]

lemma nodup_map_preorder (depth : Nat) (c : Cursor) : ((c.preorder depth).map Prod.fst).Nodup := by
  induction c using induction generalizing depth with
  | step c ih =>
    rw [preorder_eq, List.map_cons, List.map_flatMap, List.nodup_cons, List.nodup_flatMap]
    refine ⟨fun hc => ?_, fun d hd => ih d hd (depth + 1), ?_⟩
    · obtain ⟨d, hd, hc⟩ := List.mem_flatMap.mp hc
      obtain ⟨i, hi⟩ := isChild_of_mem_children hd
      have hbelow : Below d c := mem_map_preorder_iff.mp hc
      have hle := hbelow.trail_suffix.length_le
      rw [length_trail_of_child? hi] at hle
      omega
    · rw [List.pairwise_iff_getElem]
      intro i j hi hj hij x hx hx'
      have hat (n : Nat) (hn : n < c.children.length) : c.child? n = some c.children[n] := by
        rw [← getElem?_children, List.getElem?_eq_getElem hn]
      have heq := index_eq_of_below (hat i hi) (hat j hj) (mem_map_preorder_iff.mp hx) (mem_map_preorder_iff.mp hx')
      omega

/-- A walk meets no place twice. -/
theorem nodup_descendants (c : Cursor) : c.descendants.Nodup := by
  rw [descendants, walk_eq_preorder]
  exact nodup_map_preorder 0 c

/-- Places side by side: before each of them stand the tokens of the places in front of it, and those that
stand before all of them. -/
inductive Row : List Leaf → List Cursor → List Leaf → Prop
  | nil {before : List Leaf} : Row before [] before
  | cons {c : Cursor} {cs : List Cursor} {stop : List Leaf}
      (rest : Row (leavesBefore c.trail ++ c.tree.leaves) cs stop) : Row (leavesBefore c.trail) (c :: cs) stop

lemma Row.append (h : Row before cs mid) (h' : Row mid ds stop) : Row before (cs ++ ds) stop := by
  induction h with
  | nil => exact h'
  | cons rest ih => exact .cons (ih h')

lemma Row.of_append (h : Row before (cs ++ ds) stop) : ∃ mid, Row mid ds stop := by
  induction cs generalizing before with
  | nil => exact ⟨before, h⟩
  | cons c cs ih =>
    obtain _ | rest := h
    exact ih rest

lemma Row.length_le (h : Row before cs stop) : before.length ≤ stop.length := by
  induction h with
  | nil => exact Nat.le_refl _
  | cons rest ih =>
    rw [List.length_append] at ih
    omega

lemma Row.placesFrom {k : Kind} {ts rest : List Tree} {i : Nat} (hrest : ts.drop i = rest) (offset : Nat) :
    Row (leavesBefore c.trail ++ (ts.take i).flatMap Tree.leaves) (placesFrom c k ts i offset rest)
      (leavesBefore c.trail ++ ts.flatMap Tree.leaves) := by
  induction rest generalizing i offset with
  | nil =>
    rw [List.take_of_length_le (List.drop_eq_nil_iff.mp hrest)]
    exact .nil
  | cons t rest ih =>
    have ht : ts[i]? = some t := by
      rw [← List.head?_drop, hrest]
      rfl
    have hnext : ts.drop (i + 1) = rest := by rw [← List.drop_drop, hrest]; rfl
    have hplaces := ih hnext (offset + t.length)
    rw [List.take_add_one, ht, Option.toList_some, List.flatMap_append, List.flatMap_singleton,
      ← List.append_assoc] at hplaces
    exact .cons (c := ⟨t, offset, ⟨k, ts, c.offset, i⟩ :: c.trail⟩) hplaces

/-- The children of a node hold its tokens. -/
lemma row_children (hc : c.isNode = true) :
    Row (leavesBefore c.trail) c.children (leavesBefore c.trail ++ c.tree.leaves) := by
  unfold Cursor.children
  split
  · next ht => simp [isNode, ht, Tree.isNode] at hc
  · next k ts ht =>
    have hplaces : Row _ (Cursor.placesFrom c k ts 0 c.offset ts) _ := .placesFrom (i := 0) rfl c.offset
    rw [ht, Tree.leaves_node]
    simpa using hplaces

/-- The tokens that a walk meets come in a row, and hold all that lies ahead. -/
theorem Row.walkFrom (h : Row before stack.flatten stop) :
    Row before (((Cursor.walkFrom stack).map Prod.fst).filter isToken) stop := by
  fun_induction Cursor.walkFrom stack generalizing before with
  | case1 => exact h
  | case2 stack ih => exact ih h
  | case3 c cs stack k s hc ih =>
    obtain _ | rest := h
    have htoken : c.isToken = true := by rw [isToken, hc]; rfl
    rw [List.map_cons, List.filter_cons_of_pos htoken]
    exact .cons (ih rest)
  | case4 c cs stack k ts hc ih =>
    obtain _ | rest := h
    have hnode : c.isNode = true := by rw [isNode, hc]; rfl
    have htoken : ¬ c.isToken = true := by simp [isToken, Tree.isToken, hc, Tree.isNode]
    rw [List.map_cons, List.filter_cons_of_neg htoken]
    exact ih ((row_children hnode).append rest)

/-- The tokens of a tree in a row. -/
theorem row_tokens (hroot : root.isNode = true) : Row [] (ofRoot root).tokens root.leaves := by
  have htoken : ¬ (ofRoot root).isToken = true := by simp [isToken, ofRoot, Tree.isToken, hroot]
  have hchildren := row_children (c := ofRoot root) hroot
  rw [tokens, descendants, walk, List.map_cons, List.filter_cons_of_neg htoken]
  apply Row.walkFrom
  rw [List.flatten_singleton]
  exact hchildren

lemma Row.eq_of_nil (h : Row before [] stop) : before = stop := by
  cases h
  rfl

lemma Row.getLast? (h : Row before cs stop) (hlast : cs.getLast? = some d) :
    leavesBefore d.trail ++ d.tree.leaves = stop := by
  induction h with
  | nil => cases hlast
  | @cons c cs stop rest ih =>
    cases cs with
    | nil =>
      cases hlast
      exact rest.eq_of_nil
    | cons e es => exact ih (List.getLast?_cons_cons ▸ hlast)

lemma leaves_of_isToken (h : c.isToken = true) : c.tree.leaves = [⟨c.kind, c.text⟩] := by
  cases ht : c.tree with
  | token k s => simp [kind, text, ht, Tree.kind]
  | node k ts => simp [isToken, Tree.isToken, Tree.isNode, ht] at h

/-- The last token that a walk meets is the one with no token after it. -/
theorem getLast?_tokens_iff (hroot : root.isNode = true) : (ofRoot root).tokens.getLast? = some d ↔
    Placed root d ∧ d.isToken = true ∧ leavesAfter d.trail = [] := by
  have hrow := row_tokens hroot
  constructor
  · intro h
    obtain ⟨hplaced, htoken⟩ := mem_tokens_iff.mp (List.mem_of_getLast? h)
    refine ⟨hplaced, htoken, ?_⟩
    have hleaves := (Placed.within hplaced).leaves_eq
    rw [← hrow.getLast? h] at hleaves
    exact List.append_right_eq_self.mp hleaves.symm
  · rintro ⟨hplaced, htoken, hafter⟩
    have hleaves := hplaced.within.leaves_eq
    rw [hafter, List.append_nil] at hleaves
    obtain ⟨ds, es, hsplit⟩ := List.append_of_mem (mem_tokens_iff.mpr ⟨hplaced, htoken⟩)
    rw [hsplit] at hrow ⊢
    obtain ⟨mid, hmid⟩ := hrow.of_append
    obtain _ | rest := hmid
    rw [← hleaves] at rest
    cases es with
    | nil => exact List.getLast?_concat
    | cons e es =>
      -- a token behind it would be one leaf more than there are
      have he : e ∈ (ofRoot root).tokens := by simp [hsplit]
      have hone := leaves_of_isToken (mem_tokens_iff.mp he).2
      generalize hstart : root.leaves = start at rest
      obtain _ | more := rest
      have hle := more.length_le
      rw [← hstart, List.length_append, hone, List.length_singleton] at hle
      omega

end LosslessTree.Cursor
