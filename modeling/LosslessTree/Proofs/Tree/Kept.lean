import LosslessTree.Proofs.Cursor.Place
import LosslessTree.Proofs.Tree.Cache
import LosslessTree.Proofs.Tree.Element
import LosslessTree.Tree.Interner

/-! Trees as they are kept in memory. What can be read off a tree is what is written in the element that keeps it, and
updating, interning and building do the same with elements as with trees. -/
namespace LosslessTree

namespace Tree

mutual
/-- The element that keeps a tree. -/
def kept (f : Fingerprint) : Tree → Element
  | .token k s => .ofToken f k s
  | .node k cs => .ofChildren f k (keptAll f cs)
def keptAll (f : Fingerprint) : List Tree → List Element
  | [] => []
  | c :: cs => c.kept f :: keptAll f cs
end

lemma keptAll_eq_map (f : Fingerprint) (cs : List Tree) : keptAll f cs = cs.map (kept f) := by
  induction cs with
  | nil => rfl
  | cons c cs ih => rw [keptAll, ih, List.map_cons]

lemma lengthAll_eq_sum (cs : List Tree) : lengthAll cs = (cs.map length).sum := by
  induction cs with
  | nil => rfl
  | cons c cs ih => rw [lengthAll, ih, List.map_cons, List.sum_cons]

lemma kept_token (f : Fingerprint) (k : Kind) (s : Bytes) : (token k s).kept f = .ofToken f k s := rfl

lemma kept_node (f : Fingerprint) (k : Kind) (cs : List Tree) :
    (node k cs).kept f = .ofChildren f k (cs.map (kept f)) := by
  rw [kept, keptAll_eq_map]

end Tree

open Element

/-- The element that keeps what is in a slot. -/
def Slot.kept (f : Fingerprint) (slot : Slot) : Element := slot.elim .empty (Tree.kept f)

/-- The node that an entry of a cache stands for. -/
def NodeKey.kept (f : Fingerprint) (key : NodeKey) : Element := .ofChildren f key.kind (key.slots.map (Slot.kept f))

variable {f : Fingerprint} {strict : Bool} {t : Tree} {e : Element} {k : Kind} {cs : List Tree} {slots : List Slot}

section Reading

lemma isFilled_kept (f : Fingerprint) (t : Tree) : (t.kept f).isFilled = true := by
  cases t <;> rfl

lemma isNode_kept (f : Fingerprint) (t : Tree) : (t.kept f).isNode = t.isNode := by
  cases t <;> rfl

lemma exact_kept (t : Tree) : (t.kept f).Exact f strict := by
  induction t with
  | token k s => exact .token
  | node k cs ih =>
    rw [Tree.kept_node]
    exact Fit.ofChildren (.of_isFilled (List.forall_mem_map.mpr ih)
      (List.forall_mem_map.mpr fun c _ => isFilled_kept f c)) k

lemma exists_map_kept_eq {es : List Element} (h : ∀ e ∈ es, ∃ t : Tree, t.kept f = e) :
    ∃ cs : List Tree, cs.map (Tree.kept f) = es := by
  rw [← Set.mem_range, Set.range_list_map]
  exact h

/-- What was made strictly and is not empty keeps a tree. -/
theorem exists_kept (he : e.Exact f true) (hfilled : e.isFilled = true) : ∃ t : Tree, t.kept f = e := by
  induction he with
  | empty => cases hfilled
  | @token k s => exact ⟨.token k s, rfl⟩
  | @node k es hes _ ih =>
    obtain ⟨cs, rfl⟩ := exists_map_kept_eq fun c hc => ih c hc (hes rfl c hc)
    exact ⟨.node k cs, Tree.kept_node f k cs⟩

/-- Elements that may be children keep trees, one by one. -/
lemma exists_map_kept {es : List Element} (hes : Fit f true es) : ∃ cs : List Tree, cs.map (Tree.kept f) = es :=
  exists_map_kept_eq fun c hc => exists_kept (hes.exact c hc) (hes.filled rfl c hc)

lemma length_kept (t : Tree) : (t.kept f).length = t.length := by
  induction t with
  | token k s => rfl
  | node k cs ih =>
    have hmap : cs.map (Element.length ∘ Tree.kept f) = cs.map Tree.length := List.map_congr_left ih
    rw [Tree.kept_node, Tree.length, Tree.lengthAll_eq_sum, ofChildren, laid, Element.length, layOut_snd,
      Nat.zero_add, List.map_map, hmap]

lemma layOut_map_kept (start : Nat) (cs : List Tree) :
    (layOut start (cs.map (Tree.kept f))).1 = Tree.offsetsFrom start cs := by
  induction cs generalizing start with
  | nil => rfl
  | cons c cs ih => rw [List.map_cons, layOut, ih, Tree.offsetsFrom, length_kept]

lemma offsets_kept (t : Tree) : (t.kept f).offsets = t.offsets := by
  cases t with
  | token k s => rfl
  | node k cs =>
    rw [Tree.kept_node, Tree.offsets, Tree.children, ← layOut_map_kept (f := f)]
    rfl

lemma hash_kept (t : Tree) : (t.kept f).hash = t.fingerprint f := by
  induction t with
  | token k s => rfl
  | node k cs ih =>
    have hmap : cs.map (Element.hash ∘ Tree.kept f) = cs.map (Marked.hash ∘ Tree.mark f) := List.map_congr_left ih
    rw [Tree.kept_node, Tree.fingerprint, Tree.mark, Tree.markAll_eq_map, Marked.hash, List.map_map, ← hmap,
      ← List.map_map]
    rfl

lemma hash_slot_kept (slot : Slot) : (slot.kept f).hash = (slot.map (Tree.fingerprint f)).getD 0 := by
  cases slot with
  | none => rfl
  | some t => exact hash_kept t

lemma leavesFrom?_kept (stack : List (List Tree)) :
    leavesFrom? (stack.map (List.map (Tree.kept f))) = some (Tree.leavesFrom stack) := by
  fun_induction Tree.leavesFrom stack with
  | case1 => simp [leavesFrom?]
  | case2 stack ih => simpa [leavesFrom?] using ih
  | case3 k s cs stack ih =>
    rw [List.map_cons, List.map_cons, Tree.kept_token, ofToken, leavesFrom?, ← List.map_cons, ih]
    rfl
  | case4 k ds cs stack ih =>
    rw [List.map_cons, List.map_cons, Tree.kept_node, ofChildren, laid, leavesFrom?, ← List.map_cons, ← List.map_cons,
      ih]

lemma leaves?_kept (t : Tree) : (t.kept f).leaves? = some t.leaves := by
  cases t with
  | token k s => simp [Tree.kept_token, ofToken, leaves?]
  | node k cs =>
    have hleaves : leavesFrom? [cs.map (Tree.kept f)] = some (Tree.leavesFrom [cs]) := leavesFrom?_kept [cs]
    rw [Tree.kept_node, ofChildren, laid, leaves?, hleaves, Tree.leavesFrom_eq, Tree.leaves_eq_leafList, Tree.leafList,
      List.flatMap_singleton]

lemma text?_kept (t : Tree) : (t.kept f).text? = some t.text := by
  rw [text?, leaves?_kept]
  rfl

/-- What an output takes of a tree that is written to it is a start of the text of the tree, or all of it. -/
theorem writeTo?_kept {σ ε : Type} {taken : σ → Bytes} {write : σ → Bytes → Written σ ε}
    (hwrite : Written.Reliable taken write) (s : σ) (hnode : t.isNode = true) :
    ∃ w, (t.kept f).writeTo? write s = some w ∧ w.Faithful taken s t.text :=
  writeTo?_faithful hwrite s ((isNode_kept f t).trans hnode) (text?_kept t)

lemma eq_of_alike_kept {a b : Tree} (halike : (a.kept f).Alike (b.kept f)) : a = b := by
  induction a generalizing b with
  | token k s =>
    cases b with
    | node l ds =>
      rw [Tree.kept_node] at halike
      cases halike
    | token l t =>
      cases halike
      rfl
  | node k cs ih =>
    rw [Tree.kept_node] at halike
    cases b with
    | token l t => cases halike
    | node l ds =>
      rw [Tree.kept_node] at halike
      obtain ⟨rfl, hall⟩ := alike_node_iff.mp halike
      rw [List.forall₂_map_left_iff, List.forall₂_map_right_iff] at hall
      rw [eq_of_forall₂ hall fun c hc d _ => ih c hc]

lemma alike_kept_iff (a b : Tree) : (a.kept f).Alike (b.kept f) ↔ a = b := by
  constructor
  · exact eq_of_alike_kept
  · rintro rfl
    exact .refl _

lemma alike_slot_kept_iff (x y : Slot) : (x.kept f).Alike (y.kept f) ↔ x = y := by
  cases x with
  | none =>
    cases y with
    | none => exact iff_of_true .empty rfl
    | some b => cases b <;> exact iff_of_false nofun nofun
  | some a =>
    cases y with
    | none => cases a <;> exact iff_of_false nofun nofun
    | some b => simpa [Slot.kept] using alike_kept_iff a b

/-- The elements are equal if the trees are. -/
theorem equal_kept (identity : Identity) (a b : Tree) : (a.kept f).equal identity (b.kept f) = a.equal f b := by
  have hexact (t : Tree) : (t.kept f).Exact f true := exact_kept t
  rw [Bool.eq_iff_iff, (hexact a).equal_iff (hexact b), alike_kept_iff, Tree.equal_iff]

end Reading

section Updating

lemma filter_map_kept (slots : List Slot) :
    (slots.map (Slot.kept f)).filter isFilled = (slots.filterMap id).map (Tree.kept f) := by
  induction slots with
  | nil => rfl
  | cons slot slots ih =>
    cases slot with
    | none => simpa [Slot.kept, isFilled] using ih
    | some t => simpa [Slot.kept, isFilled_kept] using ih

theorem ofFilled_kept (k : Kind) (slots : List Slot) :
    ofFilled f k (slots.map (Slot.kept f)) = (Tree.ofSlots k slots).kept f := by
  rw [ofFilled, filter_map_kept, Tree.ofSlots, Tree.kept_node]

lemma isFilled_slot_kept (slot : Slot) : (slot.kept f).isFilled = slot.isSome := by
  cases slot with
  | none => rfl
  | some t => exact isFilled_kept f t

theorem replaceChild_kept (k : Kind) (cs : List Tree) (index : Int) (slot : Slot) :
    replaceChild f k (cs.map (Tree.kept f)) index (slot.kept f) =
      (Tree.replaceChild k cs index slot).map (Tree.kept f) := by
  unfold replaceChild Tree.replaceChild
  rw [List.length_map]
  split_ifs with hrange hslot
  · rfl
  · cases slot with
    | none => rfl
    | some t => simp [isFilled_slot_kept] at hslot
  · cases slot with
    | none => exact absurd rfl hslot
    | some t =>
      have hset : (cs.map (Tree.kept f)).set index.toNat (t.kept f) = (cs.set index.toNat t).map (Tree.kept f) :=
        List.map_set.symm
      simp only [Slot.kept, Option.elim_some, hset, Except.map, Tree.kept_node]

theorem splice_kept (k : Kind) (cs : List Tree) (start stop : Int) (slots : List Slot) :
    splice f k (cs.map (Tree.kept f)) start stop (slots.map (Slot.kept f)) =
      (Tree.splice k cs start stop slots).map (Tree.kept f) := by
  have hany : (slots.map (Slot.kept f)).any (!·.isFilled) = slots.any Option.isNone := by
    rw [List.any_map]
    congr 1
    funext slot
    simp [isFilled_slot_kept]
  rw [splice, Tree.splice, List.length_map, hany]
  split_ifs with hrange hempty
  · rfl
  · rfl
  · have hsome : ∀ e ∈ slots.map (Slot.kept f), e.isFilled = true := by
      intro e he
      rw [← hany, List.any_eq_true, not_exists] at hempty
      simpa [he] using hempty e
    simp only [Except.map, Tree.kept_node, List.map_append, List.map_take, List.map_drop, ← filter_map_kept,
      List.filter_eq_self.mpr hsome]

theorem insertChild_kept (k : Kind) (cs : List Tree) (index : Int) (slot : Slot) :
    insertChild f k (cs.map (Tree.kept f)) index (slot.kept f) =
      (Tree.insertChild k cs index slot).map (Tree.kept f) :=
  splice_kept k cs index index [slot]

theorem removeChild_kept (k : Kind) (cs : List Tree) (index : Int) :
    removeChild f k (cs.map (Tree.kept f)) index = (Tree.removeChild k cs index).map (Tree.kept f) := by
  rw [removeChild, Tree.removeChild, List.length_map]
  split_ifs with hrange
  · rfl
  · exact splice_kept k cs index (index + 1) []

end Updating

namespace Cache

/-- The interner that keeps the entries of a cache. -/
def kept (c : Cache) : Interner where
  tokens := c.tokens.map fun (h, entry) => (h, .ofToken c.fingerprint entry.kind entry.text)
  nodes := c.nodes.map fun (h, entry) => (h, entry.kept c.fingerprint)
  stats := c.stats

/-- An entry is met by the same requests. -/
lemma isNodeOver_kept (identity : Identity) (key : NodeKey) (k : Kind) (slots : List Slot) :
    (key.kept f).isNodeOver identity k (slots.map (Slot.kept f)) = key.equal f ⟨k, slots⟩ := by
  have hexact (slots : List Slot) : Fit f false (slots.map (Slot.kept f)) := by
    refine ⟨List.forall_mem_map.mpr fun slot _ => ?_, nofun⟩
    cases slot with
    | none => exact .empty
    | some t => exact exact_kept t
  rw [Bool.eq_iff_iff, NodeKey.equal_iff]
  constructor
  · intro h
    have hnode := (hexact key.slots).ofChildren key.kind |>.eq_of_isNodeOver (hexact slots).exact h
    have halike : (key.kept f).Alike (ofChildren f k (slots.map (Slot.kept f))) := hnode ▸ .refl _
    obtain ⟨hkind, hall⟩ := alike_node_iff.mp halike
    rw [List.forall₂_map_left_iff, List.forall₂_map_right_iff] at hall
    have hslots := eq_of_forall₂ hall fun x _ y _ => (alike_slot_kept_iff x y).mp
    cases key
    cases hkind
    cases hslots
    rfl
  · rintro rfl
    exact isNodeOver_self identity k _

theorem token_kept (c : Cache) (k : Kind) (s : Bytes) : c.kept.token c.fingerprint k s =
    (.ofToken c.fingerprint k s, (c.token k s).kept) := by
  have htest : (fun entry : UInt64 × Element => entry.1 == c.fingerprint.token k s && entry.2.isTokenOf k s) ∘
      (fun entry : UInt64 × Leaf => (entry.1, ofToken c.fingerprint entry.2.kind entry.2.text)) =
        fun entry => entry.1 == c.fingerprint.token k s && entry.2.kind == k && entry.2.text == s := by
    funext entry
    simp [ofToken, isTokenOf, Bool.and_assoc]
  unfold Interner.token token internToken
  simp only [kept, List.find?_map, htest, find?_tokens]
  split_ifs <;> rfl

theorem node_kept (c : Cache) (identity : Identity) (k : Kind) (slots : List Slot) :
    c.kept.node c.fingerprint identity k (slots.map (Slot.kept c.fingerprint)) =
      (.ofChildren c.fingerprint k (slots.map (Slot.kept c.fingerprint)), (c.node k slots).kept) := by
  have hhash : nodeHash c.fingerprint k (slots.map (Slot.kept c.fingerprint)) =
      (NodeKey.mk k slots).fingerprint c.fingerprint := by
    rw [nodeHash, NodeKey.fingerprint, List.map_map]
    congr 1
    exact List.map_congr_left fun slot _ => hash_slot_kept slot
  have hentry : NodeKey.kept c.fingerprint ⟨k, slots⟩ = laid ((NodeKey.mk k slots).fingerprint c.fingerprint) k
      (slots.map (Slot.kept c.fingerprint)) := by rw [NodeKey.kept, ofChildren, hhash]
  have htest : (fun entry : UInt64 × Element => entry.1 == (NodeKey.mk k slots).fingerprint c.fingerprint &&
      entry.2.isNodeOver identity k (slots.map (Slot.kept c.fingerprint))) ∘
      (fun entry : UInt64 × NodeKey => (entry.1, entry.2.kept c.fingerprint)) =
        fun entry => entry.1 == (NodeKey.mk k slots).fingerprint c.fingerprint &&
          entry.2.equal c.fingerprint ⟨k, slots⟩ := by
    funext entry
    simp [isNodeOver_kept]
  unfold Interner.node node internNode
  simp only [kept, hhash, List.find?_map, htest, find?_nodes]
  split_ifs
  · rfl
  · simp only [Option.map_none, List.map_cons, hentry, ofChildren, hhash]

end Cache

namespace Builder

/-- The builder that keeps the elements built so far. -/
def kept (b : Builder) : Assembler where
  interner := b.cache.kept
  opened := b.opened
  elements := b.elements.map (Tree.kept b.cache.fingerprint)
  failure := b.failure

@[simp] lemma opened_kept (b : Builder) : b.kept.opened = b.opened := rfl

@[simp] lemma failure_kept (b : Builder) : b.kept.failure = b.failure := rfl

@[simp] lemma size_kept (b : Builder) : b.kept.elements.size = b.elements.size := Array.size_map

@[simp] lemma depth_kept (b : Builder) : b.kept.depth = b.depth := rfl

lemma fail_kept (b : Builder) (cause : BuildError) : (b.fail cause).kept = b.kept.fail cause := rfl

theorem start_kept (b : Builder) (k : Kind) : b.kept.start k = (b.start k).kept := by
  simp only [start, Assembler.start, failure_kept, size_kept, opened_kept]
  split_ifs <;> rfl

theorem token_kept (b : Builder) (k : Kind) (s : Bytes) :
    b.kept.token b.cache.fingerprint k s = (b.token k s).kept := by
  have hrequest : b.kept.interner.token b.cache.fingerprint k s = _ := b.cache.token_kept k s
  have hprint : (b.cache.internToken k s).2.fingerprint = b.cache.fingerprint :=
    (b.cache.interned_intern (.token k s)).fingerprint_eq
  simp only [token, Assembler.token, failure_kept, opened_kept, hrequest]
  split_ifs
  · rfl
  · cases ho : b.opened with
    | nil => exact (fail_kept b _).symm
    | cons top rest =>
      simp only [kept, Array.map_push, Cache.internToken_fst, hprint]
      rfl

theorem finishNode_kept (b : Builder) (identity : Identity) :
    b.kept.finishNode b.cache.fingerprint identity = b.finishNode.kept := by
  simp only [finishNode, Assembler.finishNode, failure_kept, opened_kept, size_kept]
  split_ifs
  · rfl
  · cases ho : b.opened with
    | nil => exact (fail_kept b _).symm
    | cons top rest =>
      let cs := (b.elements.extract top.start b.elements.size).toList
      have hchildren : (b.kept.elements.extract top.start b.elements.size).toList =
          (cs.map some).map (Slot.kept b.cache.fingerprint) := by
        simp [cs, kept, Slot.kept, Function.comp_def]
      have hrequest : b.kept.interner.node b.cache.fingerprint identity top.kind _ = _ :=
        b.cache.node_kept identity top.kind (cs.map some)
      have hnode : ofChildren b.cache.fingerprint top.kind ((cs.map some).map (Slot.kept b.cache.fingerprint)) =
          (Tree.ofSlots top.kind (cs.map some)).kept b.cache.fingerprint := by
        rw [Cache.ofSlots_map_some, Tree.kept_node, List.map_map]
        rfl
      have hprint : (b.cache.internNode top.kind (cs.map some)).2.fingerprint = b.cache.fingerprint :=
        (b.cache.interned_intern (.node top.kind cs)).fingerprint_eq
      have hbefore : b.kept.elements.extract 0 top.start =
          (b.elements.extract 0 top.start).map (Tree.kept b.cache.fingerprint) := Array.map_extract.symm
      simp only [hchildren, hrequest, Cache.internNode_fst, hnode, hbefore]
      simp only [kept, Array.map_push, cs, hprint]
      rfl

theorem checkpoint_kept (b : Builder) : b.kept.checkpoint = b.checkpoint := by
  simp [checkpoint, Assembler.checkpoint]

theorem startAt_kept (b : Builder) (cp : Checkpoint) (k : Kind) : b.kept.startAt cp k = (b.startAt cp k).kept := by
  simp only [startAt, Assembler.startAt, failure_kept, size_kept, opened_kept, depth_kept, apply_ite kept]
  rfl

theorem root_kept (b : Builder) : b.kept.root = b.root.map (Tree.kept b.cache.fingerprint) := by
  simp only [root, Assembler.root, failure_kept, depth_kept, size_kept]
  cases b.failure with
  | some cause => rfl
  | none =>
    have helements : b.kept.elements.toList = b.elements.toList.map (Tree.kept b.cache.fingerprint) :=
      Array.toList_map
    rw [helements]
    split_ifs
    · rfl
    · rcases b.elements.toList with _ | ⟨t, _ | ⟨u, ts⟩⟩ <;> rfl

end Builder

end LosslessTree
