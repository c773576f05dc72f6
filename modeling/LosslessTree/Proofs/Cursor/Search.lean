import LosslessTree.Cursor.Search
import LosslessTree.Proofs.Cursor.Place

/-! Searching by range and walking through a tree stay within the tree: every place they come to stands
at the offset it says. A byte of the text is always found, and so is the end of the text. -/
namespace LosslessTree

/-- Bisection on a test that holds from some index on finds the first such index. -/
theorem bisect_spec {test : Nat → Bool} (mono : ∀ i j, i ≤ j → test i = true → test j = true)
    {low high : Nat} (hle : low ≤ high) (below : ∀ i < low, test i = false) :
    bisect test low high ≤ high ∧ (∀ i < bisect test low high, test i = false) ∧
      (bisect test low high < high → test (bisect test low high) = true) := by
  fun_induction bisect test low high with
  | case1 low high hlt middle hm ih =>
    obtain ⟨hstop, hbelow, htest⟩ := ih (by omega) below
    refine ⟨by omega, hbelow, fun _ => ?_⟩
    rcases Nat.lt_or_eq_of_le hstop with h | h
    · exact htest h
    · rwa [h]
  | case2 low high hlt middle hm ih =>
    apply ih (by omega)
    intro i hi
    rw [Bool.eq_false_iff]
    exact fun h => hm (mono i middle (by omega) h)
  | case3 low high hlt => exact ⟨hle, below, fun h => absurd h hlt⟩

namespace Tree

/-- The end of a child is its start and its length. -/
lemma lengthAll_take_succ {cs : List Tree} {i : Nat} {t : Tree} (h : cs[i]? = some t) :
    lengthAll (cs.take (i + 1)) = lengthAll (cs.take i) + t.length := by
  rw [List.take_add_one, h, lengthAll_append]
  rfl

lemma lengthAll_take_mono (cs : List Tree) {i j : Nat} (h : i ≤ j) :
    lengthAll (cs.take i) ≤ lengthAll (cs.take j) := by
  rw [← Nat.add_sub_cancel' h, List.take_add, lengthAll_append]
  exact Nat.le_add_right _ _

end Tree

namespace Cursor

variable {root : Tree} {c d : Cursor} {r : TextRange} {o stop : Nat} {cs ds : List Cursor}

/-- The place reaches from the start of `r`, or before it, up to its end or further. -/
def Spans (c : Cursor) (r : TextRange) : Prop := c.offset ≤ r.start ∧ r.stop ≤ c.offset + c.length

lemma contains_range_iff {p : Int} :
    c.range.contains p = true ↔ c.offset ≤ p ∧ p < c.offset + c.length := by
  rw [TextRange.contains, Bool.and_eq_true, decide_eq_true_eq, decide_eq_true_eq]
  rfl

lemma containsRange_range_iff : c.range.containsRange r = true ↔ c.Spans r := by
  simp only [TextRange.containsRange, Bool.and_eq_true, decide_eq_true_eq]
  rfl

/-- A search refuses a range that is inverted or reaches out of the node. -/
lemma refused_iff : (r.stop < r.start ∨ (!c.range.containsRange r) = true) ↔ ¬ (r.start ≤ r.stop ∧ c.Spans r) := by
  rw [← containsRange_range_iff, Bool.not_eq_true', ← Bool.not_eq_true, not_and_or, Int.not_le]

/-- The index that bisection comes to: that of the first child that ends after the start of `r`. -/
def reach (c : Cursor) (r : TextRange) : Nat :=
  bisect (fun i => (r.shift (-c.offset)).start < c.childStop i) 0 c.tree.children.length

/-- The children before that index do not reach past the start of `r`; the child there, if any, does. -/
lemma reach_spec (c : Cursor) (r : TextRange) :
    c.reach r ≤ c.tree.children.length ∧ (∀ i < c.reach r, c.offset + c.childStop i ≤ r.start) ∧
      (c.reach r < c.tree.children.length → r.start < c.offset + c.childStop (c.reach r)) := by
  have hmono : ∀ i j, i ≤ j → decide ((r.shift (-c.offset)).start < c.childStop i) = true →
      decide ((r.shift (-c.offset)).start < c.childStop j) = true := by
    intro i j hij hi
    rw [decide_eq_true_eq] at hi ⊢
    exact Int.lt_of_lt_of_le hi (Int.ofNat_le.mpr (Tree.lengthAll_take_mono _ (Nat.succ_le_succ hij)))
  obtain ⟨hle, hbelow, hfound⟩ := bisect_spec hmono (Nat.zero_le c.tree.children.length) (by simp)
  refine ⟨hle, fun i hi => ?_, fun hlt => ?_⟩
  · have hnot : ¬ r.start + -(c.offset : Int) < c.childStop i := of_decide_eq_false (hbelow i hi)
    omega
  · have hend : r.start + -(c.offset : Int) < c.childStop (c.reach r) := of_decide_eq_true (hfound hlt)
    omega

/-- Which child is found: the one at the end of the bisection, if it spans the range. -/
lemma childIndexContaining?_eq_some_iff {i : Nat} : c.childIndexContaining? r = some i ↔
    (r.start ≤ r.stop ∧ c.Spans r) ∧ i = c.reach r ∧ i ≠ c.tree.children.length ∧
      c.offset + Tree.lengthAll (c.tree.children.take i) ≤ r.start ∧ r.stop ≤ c.offset + c.childStop i := by
  have hbounds : ((r.shift (-c.offset)).start < Tree.lengthAll (c.tree.children.take (c.reach r)) ∨
      c.childStop (c.reach r) < (r.shift (-c.offset)).stop) ↔
      ¬ (c.offset + Tree.lengthAll (c.tree.children.take (c.reach r)) ≤ r.start ∧
        r.stop ≤ c.offset + c.childStop (c.reach r)) := by
    simp only [TextRange.shift]
    omega
  change (if r.stop < r.start ∨ (!c.range.containsRange r) = true then none
    else if c.reach r = c.tree.children.length then none
    else if (r.shift (-c.offset)).start < Tree.lengthAll (c.tree.children.take (c.reach r)) ∨
      c.childStop (c.reach r) < (r.shift (-c.offset)).stop then none
    else some (c.reach r)) = some i ↔ _
  constructor
  · intro h
    split_ifs at h with hr hcount hin
    cases h
    exact ⟨not_not.mp (refused_iff.not.mp hr), rfl, hcount, not_not.mp (hbounds.not.mp hin)⟩
  · rintro ⟨hr, rfl, hcount, hin⟩
    rw [if_neg (refused_iff.not.mpr (not_not.mpr hr)), if_neg hcount,
      if_neg (hbounds.not.mpr (not_not.mpr hin))]

lemma child?_eq_some {i : Nat} (h : c.child? i = some d) :
    c.tree.children[i]? = some d.tree ∧ d.offset = c.offset + Tree.lengthAll (c.tree.children.take i) := by
  unfold child? at h
  split at h
  · cases h
  · next k cs hc =>
    obtain ⟨t, ht, rfl⟩ := Option.map_eq_some_iff.mp h
    rw [hc]
    exact ⟨ht, rfl⟩

lemma exists_child? {i : Nat} (hi : i < c.tree.children.length) : ∃ d, c.child? i = some d := by
  unfold child?
  cases hc : c.tree with
  | token k s => simp [hc, Tree.children] at hi
  | node k cs =>
    rw [hc] at hi
    exact ⟨_, Option.map_eq_some_iff.mpr ⟨_, List.getElem?_eq_getElem hi, rfl⟩⟩

/-- A child that was found spans the range. -/
lemma spans_of_childContaining? (h : c.childContaining? r = some d) : d.Spans r := by
  obtain ⟨i, hi, hd⟩ := Option.bind_eq_some_iff.mp h
  obtain ⟨ht, hoffset⟩ := child?_eq_some hd
  obtain ⟨-, -, -, hlow, hhigh⟩ := childIndexContaining?_eq_some_iff.mp hi
  rw [childStop, Tree.lengthAll_take_succ ht] at hhigh
  unfold Spans length
  omega

/-- The byte at an offset of a node is found in one of the children. -/
lemma exists_childContaining?_byte {i : Int} (hnode : c.isNode = true) (h : c.Spans ⟨i, i + 1⟩) :
    ∃ d, c.childContaining? ⟨i, i + 1⟩ = some d := by
  obtain ⟨hlow, hhigh⟩ : c.offset ≤ i ∧ i + 1 ≤ c.offset + c.length := h
  have hlength : c.length = Tree.lengthAll c.tree.children := by
    unfold isNode at hnode
    unfold length
    cases hc : c.tree with
    | token k s => simp [hc, Tree.isNode] at hnode
    | node k cs => rfl
  obtain ⟨hle, hbefore, hafter⟩ := c.reach_spec ⟨i, i + 1⟩
  generalize hj : c.reach ⟨i, i + 1⟩ = j at hle hbefore hafter
  -- the child found starts where the one before it ends
  have hstart : c.offset + Tree.lengthAll (c.tree.children.take j) ≤ i := by
    cases j with
    | zero => simpa [Tree.lengthAll] using hlow
    | succ j => exact hbefore j (Nat.lt_succ_self j)
  have hlt : j < c.tree.children.length := by
    rcases Nat.lt_or_eq_of_le hle with hlt | rfl
    · exact hlt
    · rw [List.take_length] at hstart
      omega
  have horder : i ≤ i + 1 := by omega
  obtain ⟨d, hd⟩ := exists_child? hlt
  refine ⟨d, Option.bind_eq_some_iff.mpr ⟨j, ?_, hd⟩⟩
  exact childIndexContaining?_eq_some_iff.mpr
    ⟨⟨horder, hlow, hhigh⟩, hj.symm, Nat.ne_of_lt hlt, hstart, hafter hlt⟩

lemma Within.childContaining? (h : Within root c) (hd : c.childContaining? r = some d) : Within root d := by
  obtain ⟨i, -, hi⟩ := Option.bind_eq_some_iff.mp hd
  exact h.child? hi

/-- The descent into children that contain a range ends at a place that spans it. -/
lemma spans_deepestContaining (hr : c.Spans r) : (c.deepestContaining r).Spans r := by
  fun_induction Cursor.deepestContaining c r with
  | case1 c hnone => exact hr
  | case2 c d hd hnode ih => exact ih (spans_of_childContaining? hd)
  | case3 c d hd hnode => exact spans_of_childContaining? hd

lemma Within.deepestContaining (h : Within root c) : Within root (c.deepestContaining r) := by
  fun_induction Cursor.deepestContaining c r with
  | case1 c hnone => exact h
  | case2 c d hd hnode ih => exact ih (h.childContaining? hd)
  | case3 c d hd hnode => exact h.childContaining? hd

/-- For a single byte the descent ends at a token. -/
lemma isToken_deepestContaining {i : Int} (h : c.Spans ⟨i, i + 1⟩) :
    (c.deepestContaining ⟨i, i + 1⟩).isToken = true := by
  fun_induction Cursor.deepestContaining c ⟨i, i + 1⟩ with
  | case1 c hnone =>
    by_contra htoken
    have hnode : c.isNode = true := by simpa [isToken, Tree.isToken, isNode] using htoken
    obtain ⟨d, hd⟩ := exists_childContaining?_byte hnode h
    rw [hd] at hnone
    cases hnone
  | case2 c d hd hdnode ih => exact ih (spans_of_childContaining? hd)
  | case3 c d hd hdnode => simpa [isToken, Tree.isToken, isNode] using hdnode

/-- The place that covers a range spans it. -/
lemma spans_of_covering? (hd : c.covering? r = some d) : d.Spans r := by
  unfold Cursor.covering? at hd
  split_ifs at hd with hguard
  rw [refused_iff, not_not] at hguard
  cases hd
  exact spans_deepestContaining hguard.2

lemma Within.covering? (h : Within root c) (hd : c.covering? r = some d) : Within root d ∧ d.Spans r := by
  refine ⟨?_, spans_of_covering? hd⟩
  unfold Cursor.covering? at hd
  split_ifs at hd
  cases hd
  exact h.deepestContaining

/-- The token at an offset holds the byte there. -/
lemma Within.tokenAt? {i : Int} (h : Within root c) (hd : c.tokenAt? i = some d) :
    Within root d ∧ d.isToken = true ∧ d.Spans ⟨i, i + 1⟩ := by
  unfold Cursor.tokenAt? at hd
  split_ifs at hd
  obtain ⟨hcover, htoken⟩ := Option.filter_eq_some_iff.mp hd
  obtain ⟨hplace, hspans⟩ := h.covering? hcover
  exact ⟨hplace, htoken, hspans⟩

lemma covering?_eq_some (hr : r.start ≤ r.stop) (h : c.Spans r) :
    c.covering? r = some (c.deepestContaining r) := by
  rw [Cursor.covering?, if_neg (refused_iff.not.mpr (not_not.mpr ⟨hr, h⟩))]

/-- Every byte of the text belongs to a token. -/
lemma tokenAt?_eq_some {i : Int} (h : c.range.contains i = true) :
    c.tokenAt? i = some (c.deepestContaining ⟨i, i + 1⟩) := by
  have hspans : c.Spans ⟨i, i + 1⟩ := contains_range_iff.mp h
  have horder : i ≤ i + 1 := by omega
  rw [tokenAt?, if_pos h, covering?_eq_some horder hspans, Option.filter_some,
    if_pos (isToken_deepestContaining hspans)]

lemma exists_tokenAt? {i : Int} (hlow : c.offset ≤ i) (hhigh : i < c.offset + c.length) :
    ∃ d, c.tokenAt? i = some d :=
  ⟨_, tokenAt?_eq_some (contains_range_iff.mpr ⟨hlow, hhigh⟩)⟩

/-- Places in `root` side by side, from one offset up to another. -/
inductive Abreast (root : Tree) : Nat → List Cursor → Nat → Prop
  | nil {o : Nat} : Abreast root o [] o
  | cons {c : Cursor} {cs : List Cursor} {stop : Nat} (within : Within root c)
      (rest : Abreast root (c.offset + c.length) cs stop) : Abreast root c.offset (c :: cs) stop

lemma Abreast.append {mid : Nat} (h : Abreast root o cs mid) (h' : Abreast root mid ds stop) :
    Abreast root o (cs ++ ds) stop := by
  induction h with
  | nil => exact h'
  | cons within rest ih => exact .cons within (ih h')

lemma Within.placesFrom (h : Within root c) {k : Kind} {ts rest : List Tree} (hc : c.tree = .node k ts)
    {i : Nat} (hrest : ts.drop i = rest) :
    Abreast root (c.offset + Tree.lengthAll (ts.take i))
      (placesFrom c k ts i (c.offset + Tree.lengthAll (ts.take i)) rest) (c.offset + c.length) := by
  induction rest generalizing i with
  | nil =>
    rw [List.take_of_length_le (List.drop_eq_nil_iff.mp hrest), length, hc]
    exact .nil
  | cons t rest ih =>
    have ht : ts[i]? = some t := by
      rw [← List.head?_drop, hrest]
      rfl
    have hnext : ts.drop (i + 1) = rest := by rw [← List.drop_drop, hrest]; rfl
    have hplaces := ih hnext
    rw [Tree.lengthAll_take_succ ht, ← Nat.add_assoc] at hplaces
    exact .cons (h.child hc ht) hplaces

/-- The children of a place stand side by side and fill it. -/
lemma Within.children (h : Within root c) (hnode : c.isNode = true) :
    Abreast root c.offset c.children (c.offset + c.length) := by
  unfold Cursor.children
  split
  · next hc => simp [isNode, hc, Tree.isNode] at hnode
  · next k ts hc => exact h.placesFrom hc (i := 0) rfl

/-- The tokens that a walk meets stand side by side, and leave out no part of what lies ahead. -/
theorem Abreast.walkFrom {stack : List (List Cursor)} (h : Abreast root o stack.flatten stop) :
    Abreast root o (((Cursor.walkFrom stack).map Prod.fst).filter isToken) stop := by
  fun_induction Cursor.walkFrom stack generalizing o with
  | case1 => exact h
  | case2 stack ih => exact ih h
  | case3 c cs stack k s hc ih =>
    obtain _ | ⟨hwithin, hrest⟩ := h
    have htoken : c.isToken = true := by simp [isToken, hc, Tree.isToken, Tree.isNode]
    rw [List.map_cons, List.filter_cons_of_pos htoken]
    exact .cons hwithin (ih hrest)
  | case4 c cs stack k ts hc ih =>
    obtain _ | ⟨hwithin, hrest⟩ := h
    have hnode : c.isNode = true := by rw [isNode, hc]; rfl
    rw [List.map_cons, List.filter_cons_of_neg (by simp [isToken, hc, Tree.isToken, Tree.isNode])]
    exact ih ((hwithin.children hnode).append hrest)

lemma Abreast.eq_of_nil (h : Abreast root o [] stop) : o = stop := by
  cases h
  rfl

/-- The last place ends where all of them end. -/
lemma Abreast.getLast? (h : Abreast root o cs stop) (hlast : cs.getLast? = some c) :
    Within root c ∧ c.offset + c.length = stop := by
  induction h with
  | nil => cases hlast
  | @cons d ds stop within rest ih =>
    cases ds with
    | nil =>
      cases hlast
      exact ⟨within, rest.eq_of_nil⟩
    | cons e ds => exact ih (List.getLast?_cons_cons ▸ hlast)

/-- The tokens below a node fill it. -/
theorem Within.abreast_tokens (h : Within root c) (hnode : c.isNode = true) :
    Abreast root c.offset c.tokens (c.offset + c.length) := by
  have hnot : ¬ c.isToken = true := by simpa [isToken, Tree.isToken, isNode] using hnode
  rw [tokens, descendants, walk, List.map_cons, List.filter_cons_of_neg hnot]
  apply Abreast.walkFrom
  rw [List.flatten_singleton]
  exact h.children hnode

/-- The last token of a tree ends where the text ends. -/
lemma getLast?_tokens (hroot : root.isNode = true) (h : (ofRoot root).tokens.getLast? = some c) :
    Within root c ∧ c.isToken = true ∧ c.offset + c.length = root.length := by
  obtain ⟨hplace, hend⟩ := ((within_ofRoot root).abreast_tokens hroot).getLast? h
  refine ⟨hplace, (List.mem_filter.mp (List.mem_of_getLast? h)).2, ?_⟩
  simpa [ofRoot, length] using hend

end Cursor
end LosslessTree
