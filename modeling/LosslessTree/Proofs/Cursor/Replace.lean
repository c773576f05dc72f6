import LosslessTree.Proofs.Cursor.Navigation

/-! Replacing what stands at a place. The new tree has the replacement at the path of the place and is the
old one everywhere off that path; the text changes in the range of the place alone, and what comes after
it moves along. No update on the way up is ever refused. -/
namespace LosslessTree.Cursor

variable {root u : Tree} {c d : Cursor} {i : Nat}

/-- `root'` is `root` with `u` in the place of `c`. -/
structure Replaced (root : Tree) (c : Cursor) (u root' : Tree) : Prop where
  isNode : root'.isNode = true
  here : root'.at? c.path = some u
  apart : ∀ q, ¬ c.path <+: q → ¬ q <+: c.path → root'.at? q = root.at? q
  above : ∀ q, q <+: c.path → q ≠ c.path → ∃ v w, root.at? q = some v ∧ root'.at? q = some w ∧
    v.isNode = true ∧ w.isNode = true ∧ w.kind = v.kind ∧ w.children.length = v.children.length
  text : root'.text = root.text.take c.offset ++ u.text ++ root.text.drop (c.offset + c.length)
  before : ∀ d, Placed root d → Tree.Before d.path c.path →
    ∃ d', Placed root' d' ∧ d'.path = d.path ∧ d'.tree = d.tree ∧ d'.range = d.range
  after : ∀ d, Placed root d → Tree.Before c.path d.path →
    ∃ d', Placed root' d' ∧ d'.path = d.path ∧ d'.tree = d.tree ∧
      d'.range = d.range.shift ((u.length : Int) - c.length)

/-- Replacing a child is replacing within the node it belongs to. -/
lemma rebuild_of_child? (h : c.child? i = some d) (u : Tree) :
    d.rebuild u = c.rebuild (.node c.kind (c.tree.children.set i u)) := by
  rw [rebuild, (trail_of_child? h).2]
  rfl

/-- Replacing at a place is putting at its path. -/
lemma Placed.rebuild_eq (h : Placed root c) (u : Tree) : c.rebuild u = Tree.putAt u root c.path := by
  induction h generalizing u with
  | refl => rfl
  | @tail c d hc hd ih =>
    obtain ⟨i, hi⟩ := hd
    rw [rebuild_of_child? hi, ih, path_of_child? hi,
      Tree.putAt_append_singleton (Placed.at?_path hc).1 (child?_eq_some hi).1]
    rfl

/-- Every path that leads somewhere leads to a place. -/
lemma exists_below {q : List Nat} {t : Tree} (h : c.tree.at? q = some t) :
    ∃ d, Below c d ∧ d.path = c.path ++ q ∧ d.tree = t := by
  induction q generalizing c with
  | nil => exact ⟨c, .refl, (List.append_nil _).symm, Option.some.inj h⟩
  | cons i q ih =>
    obtain ⟨v, hv, hq⟩ := Tree.at?_cons_eq_some h
    obtain ⟨d, hd⟩ := exists_child? (List.getElem?_eq_some_iff.mp hv).1
    have htree := (child?_eq_some hd).1
    rw [hv, Option.some.injEq] at htree
    obtain ⟨e, he, hpath, rfl⟩ := ih (htree ▸ hq)
    refine ⟨e, he.head ⟨i, hd⟩, ?_, rfl⟩
    rw [hpath, path_of_child? hd, List.append_assoc, List.singleton_append]

/-- The text changes in the range of the place. -/
lemma Within.text_rebuild_eq (h : Within root c) (u : Tree) :
    (c.rebuild u).text = root.text.take c.offset ++ u.text ++ root.text.drop (c.offset + c.length) := by
  have hlength : c.length = c.text.length := Tree.length_eq_length_text c.tree
  rw [text_rebuild h.sturdy, h.text_eq, h.offset, hlength, ← List.length_append, List.drop_left,
    List.append_assoc c.textBefore c.text, List.take_left]

/-- A place off the path is found again, perhaps at another offset. -/
lemma Placed.exists_kept (h : Placed root c) (u : Tree) (hd : Placed root d) (hpq : ¬ c.path <+: d.path)
    (hqp : ¬ d.path <+: c.path) :
    ∃ d', Placed (c.rebuild u) d' ∧ d'.path = d.path ∧ d'.tree = d.tree ∧
      d'.offset = (Tree.putAt u root c.path).offsetAt d.path := by
  have hat : (ofRoot (c.rebuild u)).tree.at? d.path = some d.tree := by
    rw [ofRoot, h.rebuild_eq, Tree.at?_putAt_of_apart hpq hqp, hd.at?_path.1]
  obtain ⟨d', hd', hpath, htree⟩ := exists_below hat
  have hplaced : Placed (c.rebuild u) d' := hd'
  refine ⟨d', hplaced, hpath, htree, ?_⟩
  rw [← hplaced.at?_path.2, h.rebuild_eq, hpath]
  rfl

/-- Whatever is put at a place of a tree replaces what stood there. -/
theorem Placed.replaced (h : Placed root c) (hu : c.trail ≠ [] ∨ u.isNode = true) :
    Replaced root c u (c.rebuild u) := by
  obtain ⟨hpath, -⟩ := h.at?_path
  have hrebuild := h.rebuild_eq u
  refine ⟨isNode_rebuild hu, ?_, ?_, ?_, h.within.text_rebuild_eq u, ?_, ?_⟩
  · rw [hrebuild, Tree.at?_putAt hpath]
  · intro q hpq hqp
    rw [hrebuild, Tree.at?_putAt_of_apart hpq hqp]
  · intro q hqp hne
    rw [hrebuild]
    exact Tree.at?_putAt_of_above hpath hqp hne u
  · intro d hd hbefore
    obtain ⟨hqp, hpq⟩ := hbefore.not_prefix
    obtain ⟨d', hd', hsame, htree, hoffset⟩ := h.exists_kept u hd hpq hqp
    refine ⟨d', hd', hsame, htree, ?_⟩
    rw [range, range, length, length, htree, hoffset, Tree.offsetAt_putAt_of_after hbefore, hd.at?_path.2]
  · intro d hd hafter
    obtain ⟨hpq, hqp⟩ := hafter.not_prefix
    obtain ⟨d', hd', hsame, htree, hoffset⟩ := h.exists_kept u hd hpq hqp
    have hmoved := Tree.offsetAt_putAt_of_before hafter hpath u
    rw [← hoffset, hd.at?_path.2] at hmoved
    refine ⟨d', hd', hsame, htree, ?_⟩
    simp only [range, length, TextRange.ofOffset, TextRange.shift, htree, TextRange.mk.injEq]
    omega

/-- `rebuild` with every update on the way up checked. -/
def rebuildChecked (c : Cursor) (u : Tree) : Except UpdateError Tree :=
  c.trail.foldlM (fun below a => Tree.replaceChild a.kind a.children a.index (some below)) u

lemma replaceChild_of_lt {k : Kind} {cs : List Tree} (hi : i < cs.length) (u : Tree) :
    Tree.replaceChild k cs i (some u) = .ok (.node k (cs.set i u)) := by
  rw [Tree.replaceChild, if_neg (by omega)]
  rfl

/-- No update on the way up is refused. -/
lemma rebuildChecked_of_sturdy (h : Sturdy c.trail) (u : Tree) : c.rebuildChecked u = .ok (c.rebuild u) := by
  obtain ⟨t, o, trail⟩ := c
  induction trail generalizing u with
  | nil => rfl
  | cons a trail ih =>
    obtain ⟨ha, htrail⟩ := List.forall_mem_cons.mp h
    rw [rebuild_cons, ← ih _ htrail, rebuildChecked, List.foldlM_cons, replaceChild_of_lt ha]
    rfl

lemma replaceChild_of_child? (h : c.child? i = some d) (u : Tree) :
    c.replaceChild i (some u) = .ok (d.rebuild u) := by
  have hi := (List.getElem?_eq_some_iff.mp (child?_eq_some h).1).1
  rw [replaceChild, replaceChild_of_lt hi, rebuild_of_child? h]

/-- What becomes of a child: an index without one is refused, then an empty slot; else it is replaced. -/
lemma Placed.replaceChild_cases (h : Placed root c) (n : Int) (slot : Slot) :
    ((n < 0 ∨ c.tree.children.length ≤ n) ∧
      c.replaceChild n slot = .error (.child c.range (.index n c.tree.children.length))) ∨
    ((0 ≤ n ∧ n < c.tree.children.length) ∧ slot = none ∧
      c.replaceChild n slot = .error (.child c.range .emptySlot)) ∨
    ((0 ≤ n ∧ n < c.tree.children.length) ∧ ∃ u d root', slot = some u ∧ c.nth? n = some d ∧
      c.replaceChild n slot = .ok root' ∧ Replaced root d u root') := by
  by_cases hn : n < 0 ∨ c.tree.children.length ≤ n
  · refine .inl ⟨hn, ?_⟩
    rw [replaceChild, Tree.replaceChild.eq_def, if_pos hn]
  · have hin : 0 ≤ n ∧ n < c.tree.children.length := by omega
    cases slot with
    | none =>
      refine .inr (.inl ⟨hin, rfl, ?_⟩)
      rw [replaceChild, Tree.replaceChild.eq_def, if_neg hn]
    | some u =>
      obtain ⟨i, rfl⟩ := Int.eq_ofNat_of_zero_le hin.1
      obtain ⟨d, hd⟩ := exists_child? (Int.ofNat_lt.mp hin.2)
      have htrail : d.trail ≠ [] := by
        rw [(trail_of_child? hd).2]
        exact List.cons_ne_nil _ _
      refine .inr (.inr ⟨hin, u, d, d.rebuild u, rfl, ?_, replaceChild_of_child? hd u, ?_⟩)
      · rw [nth?, if_neg (by omega), Int.toNat_natCast]
        exact hd
      · exact Placed.replaced (h.tail ⟨i, hd⟩) (.inl htrail)

/-- Replacement of a child, a node or a token, and of the text of a token, at any place of a tree with a
node at its top. A replacement that was given is always made, and only there. -/
theorem replacement_exact (hroot : root.isNode = true) (hc : Placed root c) :
    (∀ (n : Int) (slot : Slot),
      ((n < 0 ∨ c.tree.children.length ≤ n) ∧
        c.replaceChild n slot = .error (.child c.range (.index n c.tree.children.length))) ∨
      ((0 ≤ n ∧ n < c.tree.children.length) ∧ slot = none ∧
        c.replaceChild n slot = .error (.child c.range .emptySlot)) ∨
      ((0 ≤ n ∧ n < c.tree.children.length) ∧ ∃ u d root', slot = some u ∧ c.nth? n = some d ∧
        c.replaceChild n slot = .ok root' ∧ Replaced root d u root')) ∧
    (c.isNode = true → ∀ k cs, ∃ root',
      c.replaceNode (some (.node k cs)) = .ok root' ∧ Replaced root c (.node k cs) root') ∧
    (c.isToken = true → ∀ k s, ∃ p root', c.parent? = some p ∧
      p.replaceChild c.index (some (.token k s)) = .ok root' ∧
      c.replaceToken (some (.token k s)) = .ok root' ∧ Replaced root c (.token k s) root') ∧
    (c.isToken = true → ∀ s, Replaced root c (.token c.kind s) (c.withText s)) ∧
    ∀ u, c.rebuildChecked u = .ok (c.rebuild u) := by
  refine ⟨hc.replaceChild_cases, ?_, ?_, ?_, rebuildChecked_of_sturdy hc.within.sturdy⟩
  · intro _ k cs
    exact ⟨_, rfl, hc.replaced (.inr rfl)⟩
  · intro htoken k s
    have htrail := hc.within.trail_ne_nil hroot htoken
    obtain ⟨p, hp⟩ := exists_parent? htrail
    obtain ⟨-, hchild⟩ := hc.parent? hp
    exact ⟨p, _, hp, replaceChild_of_child? hchild _, rfl, hc.replaced (.inl htrail)⟩
  · intro htoken s
    exact hc.replaced (.inl (hc.within.trail_ne_nil hroot htoken))

/-- An empty node among empty elements gets a text. -/
theorem replacement_exact_crowded :
    crowded.isNode = true ∧ Placed crowded (crowdedChild (.node 4 []) 1) ∧
      ∃ root', (crowdedChild (.node 4 []) 1).replaceNode (some (.node 6 [.token 7 [0x21]])) = .ok root' ∧
        Replaced crowded (crowdedChild (.node 4 []) 1) (.node 6 [.token 7 [0x21]]) root' := by
  have hplaced : Placed crowded (crowdedChild (.node 4 []) 1) :=
    (Relation.ReflTransGen.single (b := crowdedNode) ⟨1, rfl⟩).tail ⟨1, rfl⟩
  exact ⟨rfl, hplaced, (replacement_exact rfl hplaced).2.1 rfl 6 [.token 7 [0x21]]⟩

end LosslessTree.Cursor
