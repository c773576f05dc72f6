import LosslessTree.Proofs.Cursor.Walk

/-! Bisection and a look at one child after the other. Children that are empty share their offset with the
child behind them, so the ends of the children go up, but not strictly. Still at most one child holds the byte
at an offset, and it is the one that bisection comes to. -/
namespace LosslessTree.Cursor

variable {c d e : Cursor} {r : TextRange} {i j : Nat}

/-- What a child spans its node spans too. -/
lemma IsChild.spans (h : IsChild c d) (hd : d.Spans r) : c.Spans r := by
  obtain ⟨i, hi⟩ := h
  have hchild := spans_of_child? hi
  simp only [Spans, range, TextRange.ofOffset] at hchild hd ⊢
  omega

/-- The place holds the byte at the start of `r` and reaches up to the end of `r`. -/
def holds (r : TextRange) (d : Cursor) : Bool := d.range.contains r.start && r.stop ≤ d.range.stop

/-- The first child that holds `r`, found by looking at them in turn, if `r` is a range within the node. -/
def scanContaining? (c : Cursor) (r : TextRange) : Option Cursor :=
  if r.stop < r.start ∨ !c.range.containsRange r then none else c.children.find? (holds r)

lemma holds_iff : holds r d = true ↔ d.range.contains r.start = true ∧ d.Spans r := by
  rw [holds, Bool.and_eq_true, decide_eq_true_eq, contains_range_iff]
  simp only [Spans, range, TextRange.ofOffset]
  omega

/-- For a range that is not empty it is enough to span it. -/
lemma holds_iff_spans (hr : r.start < r.stop) : holds r d = true ↔ d.Spans r := by
  rw [holds_iff, contains_range_iff, Spans]
  omega

/-- The child that holds the byte at the start of a range is the one that bisection comes to. -/
lemma eq_reach (h : c.child? i = some d) (hd : d.range.contains r.start = true) : i = c.reach r := by
  obtain ⟨ht, hoffset⟩ := child?_eq_some h
  have hlt : i < c.tree.children.length := (List.getElem?_eq_some_iff.mp ht).1
  have hstop : c.childStop i = Tree.lengthAll (c.tree.children.take i) + d.length :=
    Tree.lengthAll_take_succ ht
  obtain ⟨hlow, hhigh⟩ := contains_range_iff.mp hd
  obtain ⟨-, hbefore, hfound⟩ := c.reach_spec r
  -- no later child is reached, since this one ends after the start of the range
  have hle : c.reach r ≤ i := by
    by_contra hgt
    have := hbefore i (by omega)
    omega
  -- and no earlier one, since those end where this one starts, or before
  have hge : i ≤ c.reach r := by
    by_contra hgt
    have hend := Tree.lengthAll_take_mono c.tree.children (i := c.reach r + 1) (j := i) (by omega)
    have := hfound (by omega)
    rw [childStop] at this
    omega
  exact Nat.le_antisymm hge hle

/-- At most one child holds a byte. -/
lemma index_unique (hd : c.child? i = some d) (he : c.child? j = some e) (hdr : holds r d = true)
    (her : holds r e = true) : i = j := by
  rw [eq_reach hd (holds_iff.mp hdr).1, eq_reach he (holds_iff.mp her).1]

/-- Bisection finds the child that holds the range. -/
theorem childContaining?_eq_some_iff :
    c.childContaining? r = some d ↔ (r.start ≤ r.stop ∧ c.Spans r) ∧ IsChild c d ∧ holds r d = true := by
  constructor
  · intro h
    have hspans := spans_of_childContaining? h
    obtain ⟨i, hi, hd⟩ := Option.bind_eq_some_iff.mp h
    obtain ⟨ht, hoffset⟩ := child?_eq_some hd
    obtain ⟨hr, hreach, hcount, hlow, -⟩ := childIndexContaining?_eq_some_iff.mp hi
    have hstop : c.childStop i = Tree.lengthAll (c.tree.children.take i) + d.length :=
      Tree.lengthAll_take_succ ht
    have hstart := (c.reach_spec r).2.2 (by have := (c.reach_spec r).1; omega)
    rw [← hreach] at hstart
    refine ⟨hr, ⟨i, hd⟩, holds_iff.mpr ⟨contains_range_iff.mpr ?_, hspans⟩⟩
    omega
  · rintro ⟨hr, ⟨i, hi⟩, hd⟩
    obtain ⟨hin, hspans⟩ := holds_iff.mp hd
    obtain ⟨ht, hoffset⟩ := child?_eq_some hi
    have hlt : i < c.tree.children.length := (List.getElem?_eq_some_iff.mp ht).1
    have hstop : c.childStop i = Tree.lengthAll (c.tree.children.take i) + d.length :=
      Tree.lengthAll_take_succ ht
    obtain ⟨hlow, hhigh⟩ := hspans
    have hindex : c.childIndexContaining? r = some i :=
      childIndexContaining?_eq_some_iff.mpr ⟨hr, eq_reach hi hin, Nat.ne_of_lt hlt, by omega, by omega⟩
    rw [childContaining?, hindex]
    exact hi

/-- So does looking at one child after the other. -/
lemma scanContaining?_eq_some_iff :
    c.scanContaining? r = some d ↔ (r.start ≤ r.stop ∧ c.Spans r) ∧ IsChild c d ∧ holds r d = true := by
  unfold scanContaining?
  split_ifs with hguard
  · rw [refused_iff] at hguard
    simp [hguard]
  · rw [refused_iff, not_not] at hguard
    simp only [hguard, and_self, true_and]
    constructor
    · intro h
      exact ⟨mem_children_iff.mp (List.mem_of_find?_eq_some h), List.find?_some h⟩
    · rintro ⟨⟨i, hi⟩, hd⟩
      obtain ⟨e, he⟩ := Option.isSome_iff_exists.mp
        (List.find?_isSome.mpr ⟨d, mem_children_iff.mpr ⟨i, hi⟩, hd⟩)
      obtain ⟨j, hj⟩ := mem_children_iff.mp (List.mem_of_find?_eq_some he)
      rw [he, ← hi, ← hj, index_unique hi hj hd (List.find?_some he)]

/-- Bisection finds the first child that holds the byte at the start of a range and reaches up to its end, if
the range is one and lies within the node. There is at most one such child, and for a range that is not empty
it is the one child whose range contains it. -/
theorem childContaining?_eq_scanContaining? (c : Cursor) (r : TextRange) :
    c.childContaining? r = c.scanContaining? r ∧
      (∀ i j d e, c.child? i = some d → c.child? j = some e → holds r d = true → holds r e = true → i = j) ∧
      (r.start < r.stop → ∀ d, c.childContaining? r = some d ↔
        d ∈ c.children ∧ d.range.containsRange r = true) := by
  refine ⟨?_, fun i j d e => index_unique, fun hr d => ?_⟩
  · ext d
    rw [childContaining?_eq_some_iff, scanContaining?_eq_some_iff]
  · rw [childContaining?_eq_some_iff, mem_children_iff, holds_iff_spans hr, containsRange_range_iff]
    exact and_iff_right_of_imp fun h => ⟨Int.le_of_lt hr, h.1.spans h.2⟩

/-- The last token of the crowded node starts where the two empty children before it do. -/
theorem childContaining?_eq_scanContaining?_crowded :
    (TextRange.mk 1 2).start < (TextRange.mk 1 2).stop ∧
      crowdedNode.childContaining? ⟨1, 2⟩ = some (crowdedChild (.token 5 [0x62, 0x63]) 2) := by
  have hr : (TextRange.mk 1 2).start < (TextRange.mk 1 2).stop := by decide
  have hmem : crowdedChild (.token 5 [0x62, 0x63]) 2 ∈ crowdedNode.children :=
    List.mem_of_getElem? (i := 2) rfl
  exact ⟨hr, ((childContaining?_eq_scanContaining? crowdedNode ⟨1, 2⟩).2.2 hr _).mpr ⟨hmem, by decide⟩⟩

end LosslessTree.Cursor

/-! The place that covers a range. Of the children of a node at most one covers a range that is not empty, so
the descent passes through every place that does; it ends at a token exactly if one covers the range. -/
namespace LosslessTree.Cursor

variable {c d e : Cursor} {r : TextRange} {p : Int}

/-- What spans a range lies below what spans it too. -/
lemma Below.spans (h : Below c d) (hd : d.Spans r) : c.Spans r := by
  induction h using Relation.ReflTransGen.head_induction_on with
  | refl => exact hd
  | head step _ ih => exact step.spans ih

/-- A child that spans a range which is not empty is the one that is found. -/
lemma childContaining?_of_spans (h : IsChild c d) (hd : d.Spans r) (hr : r.start < r.stop) :
    c.childContaining? r = some d :=
  childContaining?_eq_some_iff.mpr ⟨⟨Int.le_of_lt hr, h.spans hd⟩, h, (holds_iff_spans hr).mpr hd⟩

lemma deepestContaining_of_isToken (h : c.isToken = true) (r : TextRange) : c.deepestContaining r = c := by
  rw [deepestContaining]
  split
  · rfl
  · next d hd =>
    have hbelow : Below c d := .single (isChild_of_childContaining? hd)
    obtain rfl := hbelow.eq_of_isToken h
    exact absurd (weight_childContaining?_lt hd) (Nat.lt_irrefl _)

/-- The descent goes on from the child that is found. -/
lemma deepestContaining_of_child (h : c.childContaining? r = some d) :
    c.deepestContaining r = d.deepestContaining r := by
  rw [deepestContaining]
  split
  · next hnone => cases hnone.symm.trans h
  · next e he =>
    obtain rfl := Option.some.inj (he.symm.trans h)
    by_cases hnode : e.isNode = true
    · rw [if_pos hnode]
    · have htoken : e.isToken = true := by simpa [isToken, Tree.isToken, isNode] using hnode
      rw [if_neg hnode, deepestContaining_of_isToken htoken]

/-- Every place that spans a range which is not empty lies on the way down to the deepest one. -/
theorem below_deepestContaining_of_spans (h : Below c d) (hd : d.Spans r) (hr : r.start < r.stop) :
    Below d (c.deepestContaining r) := by
  induction h using Relation.ReflTransGen.head_induction_on with
  | refl => exact below_deepestContaining d r
  | head step below ih =>
    rw [deepestContaining_of_child (childContaining?_of_spans step (Below.spans below hd) hr)]
    exact ih

/-- A range that is not empty is covered by a token exactly if a token spans it, and by that one. -/
theorem covering?_isToken_iff (hr : r.start < r.stop) :
    (c.covering? r).filter isToken = some d ↔ Below c d ∧ d.isToken = true ∧ d.Spans r := by
  rw [Option.filter_eq_some_iff]
  constructor
  · rintro ⟨hcover, htoken⟩
    exact ⟨below_of_covering? hcover, htoken, spans_of_covering? hcover⟩
  · rintro ⟨hbelow, htoken, hspans⟩
    have hdeepest := (below_deepestContaining_of_spans hbelow hspans hr).eq_of_isToken htoken
    rw [covering?_eq_some (Int.le_of_lt hr) (hbelow.spans hspans), hdeepest]
    exact ⟨rfl, htoken⟩

lemma spans_byte_iff : c.Spans ⟨p, p + 1⟩ ↔ c.range.contains p = true := by
  rw [contains_range_iff]
  change c.offset ≤ p ∧ p + 1 ≤ c.offset + c.length ↔ _
  omega

/-- The token at an offset is the one that contains it. -/
theorem tokenAt?_eq_some_iff :
    c.tokenAt? p = some d ↔ Below c d ∧ d.isToken = true ∧ d.range.contains p = true := by
  have hbyte : p < p + 1 := by omega
  unfold tokenAt?
  split_ifs with hin
  · rw [covering?_isToken_iff hbyte, spans_byte_iff]
  · simp only [false_iff, not_and]
    rintro hbelow - hcontains
    exact hin (spans_byte_iff.mp (Below.spans hbelow (spans_byte_iff.mpr hcontains)))

end LosslessTree.Cursor
