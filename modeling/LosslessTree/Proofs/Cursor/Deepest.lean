import LosslessTree.Proofs.Cursor.Covering

/-! What covers a range. For a range with a byte in it all the places that contain it lie on one way down, and
the search comes to the end of that way. For an empty range the byte behind it decides, so the search comes to
the token of that byte, or stays where it is if there is no byte behind the range. -/
namespace LosslessTree.Cursor

variable {c d e : Cursor} {r : TextRange} {p : Int}

/-- What lies above a place is on its trail. -/
lemma eq_or_mem_ofTrail (h : Below d e) : d = e ∨ d ∈ ofTrail e.trail := by
  induction h with
  | refl => exact .inl rfl
  | @tail b e _ hchild ih =>
    obtain ⟨i, hi⟩ := hchild
    rw [ofTrail_of_child? hi, List.mem_cons]
    exact .inr ih

/-- All that lies above a place is among its ancestors. -/
lemma eq_or_mem_ancestors (h : Below d e) : d = e ∨ d ∈ e.ancestors := by
  refine (eq_or_mem_ofTrail h).imp id fun hd => ?_
  unfold ancestors
  split_ifs
  · exact List.mem_cons_of_mem e hd
  · exact hd

/-- A place below `c` that contains `r`, with every other one among the nodes around it. -/
structure Deepest (c : Cursor) (r : TextRange) (e : Cursor) : Prop where
  below : e ∈ c.descendants
  contains : e.range.containsRange r = true
  inside : ∀ d ∈ c.descendants, d.range.containsRange r = true → d = e ∨ d ∈ e.ancestors

/-- The one token below `c` that holds the byte at `p`. -/
def OnlyTokenAt (c : Cursor) (p : Int) (t : Cursor) : Prop :=
  ∀ d, d ∈ c.tokens ∧ d.range.contains p = true ↔ d = t

lemma covering?_eq_none_iff :
    c.covering? r = none ↔ r.stop < r.start ∨ c.range.containsRange r = false := by
  rw [← Bool.not_eq_true']
  unfold covering?
  split_ifs with hguard
  · exact iff_of_true rfl hguard
  · exact iff_of_false nofun hguard

/-- What covers a range that is not empty is the deepest place that contains it. -/
theorem deepest_of_covering? (hr : r.start < r.stop) (h : c.covering? r = some e) : Deepest c r e := by
  refine ⟨mem_descendants_iff.mpr (below_of_covering? h), ?_, fun d hd hcontains => ?_⟩
  · exact containsRange_range_iff.mpr (spans_of_covering? h)
  · rw [mem_descendants_iff] at hd
    rw [containsRange_range_iff] at hcontains
    rw [covering?_eq_some (Int.le_of_lt hr) (hd.spans hcontains)] at h
    obtain rfl := Option.some.inj h
    exact eq_or_mem_ancestors (below_deepestContaining_of_spans hd hcontains hr)

section Point

/-- In front of a byte the child that is found is that of the byte. -/
lemma childContaining?_point (h : c.range.contains p = true) :
    c.childContaining? ⟨p, p⟩ = c.childContaining? ⟨p, p + 1⟩ := by
  have hspans (x : Cursor) (hx : x.range.contains p = true) : x.Spans ⟨p, p⟩ ∧ x.Spans ⟨p, p + 1⟩ := by
    obtain ⟨hlow, hhigh⟩ := contains_range_iff.mp hx
    exact ⟨⟨hlow, Int.le_of_lt hhigh⟩, hlow, hhigh⟩
  have horder : p ≤ p + 1 := by omega
  ext d
  rw [childContaining?_eq_some_iff, childContaining?_eq_some_iff, holds_iff, holds_iff]
  simp only [hspans c h, horder, Int.le_refl, and_self, true_and]
  constructor
  · rintro ⟨hchild, hd, -⟩
    exact ⟨hchild, hd, (hspans d hd).2⟩
  · rintro ⟨hchild, hd, -⟩
    exact ⟨hchild, hd, (hspans d hd).1⟩

lemma deepestContaining_of_none (h : c.childContaining? r = none) : c.deepestContaining r = c := by
  rw [deepestContaining]
  split
  · rfl
  · next d hd => cases h.symm.trans hd

/-- So the descent in front of a byte ends where the descent to the byte does. -/
lemma deepestContaining_point (h : c.range.contains p = true) :
    c.deepestContaining ⟨p, p⟩ = c.deepestContaining ⟨p, p + 1⟩ := by
  have hpoint := childContaining?_point h
  fun_induction deepestContaining c ⟨p, p + 1⟩ with
  | case1 c hnone => exact deepestContaining_of_none (hpoint.trans hnone)
  | case2 c d hd hnode ih =>
    have hin := spans_byte_iff.mp (spans_of_childContaining? hd)
    rw [deepestContaining_of_child (hpoint.trans hd), ih hin (childContaining?_point hin)]
  | case3 c d hd hnode =>
    have htoken : d.isToken = true := by simpa [isToken, Tree.isToken, isNode] using hnode
    rw [deepestContaining_of_child (hpoint.trans hd), deepestContaining_of_isToken htoken]

lemma covering?_point (h : c.range.contains p = true) : c.covering? ⟨p, p⟩ = c.tokenAt? p := by
  obtain ⟨hlow, hhigh⟩ := contains_range_iff.mp h
  rw [covering?_eq_some (Int.le_refl p) ⟨hlow, Int.le_of_lt hhigh⟩, tokenAt?_eq_some h, deepestContaining_point h]

lemma onlyTokenAt (h : c.tokenAt? p = some d) : OnlyTokenAt c p d := by
  intro e
  rw [mem_tokens_iff, and_assoc, ← tokenAt?_eq_some_iff, h, Option.some.injEq, eq_comm]

/-- Behind the last byte no child is found. -/
lemma covering?_stop (c : Cursor) : c.covering? ⟨c.range.stop, c.range.stop⟩ = some c := by
  have hspans : c.Spans ⟨c.range.stop, c.range.stop⟩ := by
    simp only [Spans, range, TextRange.ofOffset]
    omega
  have hnone : c.childContaining? ⟨c.range.stop, c.range.stop⟩ = none := by
    rw [Option.eq_none_iff_forall_ne_some]
    intro d hd
    obtain ⟨-, ⟨i, hi⟩, hholds⟩ := childContaining?_eq_some_iff.mp hd
    have hchild := spans_of_child? hi
    have hin := contains_range_iff.mp (holds_iff.mp hholds).1
    simp only [Spans, range, TextRange.ofOffset] at hchild hin
    omega
  rw [covering?_eq_some (Int.le_refl _) hspans, deepestContaining_of_none hnone]

lemma isSome_tokenAt? (c : Cursor) (p : Int) : (c.tokenAt? p).isSome = c.range.contains p := by
  by_cases h : c.range.contains p = true
  · rw [tokenAt?_eq_some h, h]
    rfl
  · rw [tokenAt?, if_neg h]
    simpa using h

end Point

/-- Going down while there is a child that contains the range, for some rounds at most; there is no result
if that takes more. -/
def descend (r : TextRange) : Nat → Cursor → Option Cursor
  | 0, _ => none
  | rounds + 1, c =>
    match c.childContaining? r with
    | none => some c
    | some d => if d.isNode then descend r rounds d else some d

/-- Every round goes into a smaller tree, so a tree has enough rounds in itself. -/
theorem descend_eq {rounds : Nat} (h : c.tree.weight ≤ rounds) :
    descend r rounds c = some (c.deepestContaining r) := by
  induction rounds generalizing c with
  | zero => cases ht : c.tree <;> simp [ht] at h
  | succ rounds ih =>
    rw [descend]
    cases hd : c.childContaining? r with
    | none => rw [deepestContaining_of_none hd]
    | some d =>
      have hlt := weight_childContaining?_lt hd
      rw [deepestContaining_of_child hd]
      by_cases hnode : d.isNode = true
      · exact (if_pos hnode).trans (ih (by omega))
      · have htoken : d.isToken = true := by simpa [isToken, Tree.isToken, isNode] using hnode
        rw [deepestContaining_of_isToken htoken]
        exact if_neg hnode

/-- A search for what covers a range has no result exactly if the range is inverted or not within the node. For
a range with a byte in it the result is the deepest place that contains the range; in front of a byte it is the
one token that holds the byte, and at the end of the node the node itself. A token is found at just the offsets
of the node. The descent ends. -/
theorem covering?_finds_deepest (c : Cursor) (r : TextRange) :
    (c.covering? r = none ↔ r.stop < r.start ∨ c.range.containsRange r = false) ∧
      (r.start < r.stop → ∀ e, c.covering? r = some e → Deepest c r e) ∧
      (∀ p, c.range.contains p = true →
        ∃ t, c.covering? ⟨p, p⟩ = some t ∧ c.tokenAt? p = some t ∧ OnlyTokenAt c p t) ∧
      c.covering? ⟨c.range.stop, c.range.stop⟩ = some c ∧
      (∀ p, (c.tokenAt? p).isSome = c.range.contains p) ∧
      ∀ e, c.covering? r = some e → descend r c.tree.weight c = some e := by
  refine ⟨covering?_eq_none_iff, fun hr e he => deepest_of_covering? hr he, fun p hp => ?_, covering?_stop c,
    isSome_tokenAt? c, fun e he => ?_⟩
  · have htoken := tokenAt?_eq_some hp
    exact ⟨_, (covering?_point hp).trans htoken, htoken, onlyTokenAt htoken⟩
  · rw [descend_eq (Nat.le_refl _), ← he]
    unfold covering? at he ⊢
    split_ifs at he ⊢
    rfl

/-- Three places start where the token does that holds the byte, and two nodes around it contain the range. -/
theorem covering?_finds_deepest_crowded :
    (TextRange.mk 1 2).start < (TextRange.mk 1 2).stop ∧
      (ofRoot crowded).covering? ⟨1, 2⟩ = some (crowdedChild (.token 5 [0x62, 0x63]) 2) ∧
      Deepest (ofRoot crowded) ⟨1, 2⟩ (crowdedChild (.token 5 [0x62, 0x63]) 2) := by
  have hr : (TextRange.mk 1 2).start < (TextRange.mk 1 2).stop := by decide
  have houter : (ofRoot crowded).childContaining? ⟨1, 2⟩ = some crowdedNode :=
    childContaining?_of_spans ⟨1, rfl⟩ (containsRange_range_iff.mp (by decide)) hr
  have hinner : crowdedNode.childContaining? ⟨1, 2⟩ = some (crowdedChild (.token 5 [0x62, 0x63]) 2) :=
    childContaining?_of_spans ⟨2, rfl⟩ (containsRange_range_iff.mp (by decide)) hr
  have hcover : (ofRoot crowded).covering? ⟨1, 2⟩ = some (crowdedChild (.token 5 [0x62, 0x63]) 2) := by
    rw [covering?_eq_some (by decide) (containsRange_range_iff.mp (by decide)),
      deepestContaining_of_child houter, deepestContaining_of_child hinner, deepestContaining_of_isToken rfl]
  exact ⟨hr, hcover, (covering?_finds_deepest (ofRoot crowded) ⟨1, 2⟩).2.1 hr _ hcover⟩

end LosslessTree.Cursor
