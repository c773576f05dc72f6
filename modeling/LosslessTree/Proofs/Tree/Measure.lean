import LosslessTree.Proofs.Tree.Making
import Mathlib.Algebra.BigOperators.Group.List.Basic

/-! Lengths and starts that were written once, against the text that a traversal reads off. They agree in every node
that can be made without an empty child; and a node with an empty child, which only an interner makes, has no text. -/
namespace LosslessTree

namespace Element

/-- The start of a child, or for the number of children the length of the node. -/
def edge? (e : Element) (i : Nat) : Option Nat := if i = e.children.length then some e.length else e.childOffset? i

/-- A text is read off the element, and its length is written in it. -/
def Reads (e : Element) (s : Bytes) : Prop := e.text? = some s ∧ e.length = s.length

variable {f : Fingerprint} {strict : Bool} {e : Element} {h : UInt64} {k : Kind} {es cs : List Element}
  {offsets : List Nat} {n : Nat} {texts : List Bytes}

lemma reads_kept (t : Tree) : (t.kept f).Reads t.text :=
  ⟨text?_kept t, (length_kept t).trans t.length_eq_length_text⟩

/-- A node over elements that can be children reads as they do, one after the other. -/
lemma exists_reads (hes : Fit f true es) (k : Kind) :
    ∃ texts, List.Forall₂ Reads es texts ∧ (ofChildren f k es).Reads texts.flatten := by
  obtain ⟨ts, rfl⟩ := exists_map_kept hes
  refine ⟨ts.map Tree.text, ?_, ?_⟩
  · rw [List.forall₂_map_left_iff, List.forall₂_map_right_iff, List.forall₂_same]
    exact fun t _ => reads_kept t
  · have hnode : (ofChildren f k (ts.map (Tree.kept f))).Reads (Tree.node k ts).text :=
      Tree.kept_node f k ts ▸ reads_kept _
    rwa [Tree.text_node, List.flatMap_def] at hnode

lemma rightUnique_reads : Relator.RightUnique Reads := fun _ _ _ hs hr => Option.some.inj (hs.1.symm.trans hr.1)

lemma sum_length_of_reads (hread : List.Forall₂ Reads es texts) :
    (es.map Element.length).sum = texts.flatten.length := by
  induction hread with
  | nil => rfl
  | cons hhead _ ih => rw [List.map_cons, List.sum_cons, List.flatten_cons, List.length_append, ih, hhead.2]

lemma Exact.eq_ofChildren (he : Exact f strict (.node h k cs offsets n)) :
    Element.node h k cs offsets n = .ofChildren f k cs := by
  cases he
  rfl

lemma childOffset?_ofChildren (k : Kind) (cs : List Element) (i : Nat) : (ofChildren f k cs).childOffset? i =
    if i < cs.length then some ((cs.take i).map Element.length).sum else none := by
  split_ifs with hi
  · exact (getElem?_layOut 0 hi).trans (by rw [Nat.zero_add])
  · exact List.getElem?_eq_none ((length_layOut 0 cs).le.trans (Nat.le_of_not_lt hi))

lemma edge?_ofChildren (k : Kind) {i : Nat} (hi : i ≤ cs.length) :
    (ofChildren f k cs).edge? i = some ((cs.take i).map Element.length).sum := by
  change (if i = cs.length then some (ofChildren f k cs).length else (ofChildren f k cs).childOffset? i) = _
  split_ifs with hlast
  · have hall : (ofChildren f k cs).length = (cs.map Element.length).sum := (layOut_snd 0 cs).trans (Nat.zero_add _)
    rw [hall, hlast, List.take_length]
  · rw [childOffset?_ofChildren, if_pos (Nat.lt_of_le_of_ne hi hlast)]

/-- Texts in a row are cut between two of them at the length of those before. -/
lemma take_flatten (texts : List Bytes) (i : Nat) :
    texts.flatten.take (texts.take i).flatten.length = (texts.take i).flatten := by
  rw [List.length_flatten, List.map_take, List.take_sum_flatten]

lemma drop_flatten (texts : List Bytes) (i : Nat) :
    texts.flatten.drop (texts.take i).flatten.length = (texts.drop i).flatten := by
  rw [List.length_flatten, List.map_take, List.drop_sum_flatten]

/-- A splice cuts the text of the node at the edges of the children and puts the new texts in between. -/
lemma reads_splice {parts : List Bytes} {start stop : Int} {made : Element} (hcs : Fit f true cs)
    (hes : ∀ e ∈ es, e.Exact f true) (hread : List.Forall₂ Reads cs texts) (hparts : List.Forall₂ Reads es parts)
    (hsplice : splice f k cs start stop es = .ok made) :
    ∃ low high, (ofChildren f k cs).edge? start.toNat = some low ∧ (ofChildren f k cs).edge? stop.toNat = some high ∧
      made.Reads (texts.flatten.take low ++ parts.flatten ++ texts.flatten.drop high) := by
  obtain ⟨hstart, horder, hstop, hfilled, rfl⟩ := splice_eq_ok_iff.mp hsplice
  have hbefore := List.forall₂_take start.toNat hread
  have hafter := List.forall₂_drop stop.toNat hread
  have hfit : Fit f true (cs.take start.toNat ++ es ++ cs.drop stop.toNat) :=
    ((hcs.of_subset (List.take_subset _ _)).append (.of_isFilled hes hfilled)).append
      (hcs.of_subset (List.drop_subset _ _))
  obtain ⟨all, hall, hmade⟩ := exists_reads hfit k
  obtain rfl : all = texts.take start.toNat ++ parts ++ texts.drop stop.toNat :=
    rightUnique_reads.forall₂ hall (List.rel_append (List.rel_append hbefore hparts) hafter)
  refine ⟨_, _, edge?_ofChildren k (by omega), edge?_ofChildren k (by omega), ?_⟩
  rw [sum_length_of_reads hbefore, sum_length_of_reads (List.forall₂_take stop.toNat hread), take_flatten, drop_flatten]
  rwa [List.flatten_append, List.flatten_append] at hmade

end Element

open Element

variable {f : Fingerprint} {strict : Bool}

/-- A node that was interned, over any elements and on any interner, equals the one made without an interner exactly
if no element is empty. The plain node has no empty child, and the interned one has a text exactly if there is no empty
element among the elements or in them. Every node that can be made without asking for an empty child is whole, and what
a traversal reads off it is as long as the node says. -/
theorem interned_agrees (f : Fingerprint) :
    (∀ {strict : Bool} {c : Interner} {es : List Element} (identity other : Identity) (k : Kind),
      Made f strict (.interner c) → (∀ e ∈ es, Made f strict (.element e)) →
        ((c.node f identity k es).1.equal other (.ofFilled f k es) = true ↔ ∀ e ∈ es, e.isFilled = true) ∧
        (∀ e ∈ (Element.ofFilled f k es).children, e.isFilled = true) ∧
        ((c.node f identity k es).1.text?.isSome = true ↔ ∀ e ∈ es, e.Whole)) ∧
    ∀ e, Made f true (.element e) → e.isNode = true → e.Whole ∧
      ∃ leaves, e.leaves? = some leaves ∧ e.length = (leaves.flatMap Leaf.text).length := by
  constructor
  · intro strict c es identity other k hc hes
    have hsound : ∀ e ∈ es, e.Exact f false := fun e he => (hes e he).sound.relax
    have hanswer : (c.node f identity k es).1 = .ofChildren f k es :=
      Interner.Sound.node_fst hc.sound identity k fun e he => (hes e he).sound
    have hmade : (Element.ofChildren f k es).Exact f false := Fit.ofChildren ⟨hsound, nofun⟩ k
    rw [hanswer]
    refine ⟨?_, fun e he => List.of_mem_filter he, ?_⟩
    · rw [hmade.equal_iff (.ofFilled k hsound)]
      constructor
      · intro halike
        have hcount := (alike_node_iff.mp halike).2.length_eq
        exact List.length_filter_eq_length_iff.mp hcount.symm
      · intro hfilled
        rw [Element.ofFilled, List.filter_eq_self.mpr hfilled]
        exact .refl _
    · rw [isSome_text?_iff rfl]
      exact whole_node_iff
  · intro e he hnode
    obtain ⟨t, rfl⟩ := exists_kept he.sound (isFilled_of_isNode hnode)
    obtain ⟨leaves, hleaves, htext⟩ := Option.map_eq_some_iff.mp (text?_kept (f := f) t)
    refine ⟨Exact.whole he.sound (isFilled_of_isNode hnode), leaves, hleaves, ?_⟩
    rw [htext, (reads_kept t).2]

/-- Over a token that it has handed out before, an interner with other nodes makes what can be made without it. -/
theorem interned_agrees_token :
    let f := Fingerprint.standard
    let asked := Interner.token f {} 2 [0x61]
    let c := (asked.2.node f .unknown 1 [.empty]).2
    Made f false (.interner c) ∧ (∀ e ∈ [asked.1], Made f false (.element e)) ∧
      (c.node f .unknown 1 [asked.1]).1.equal .unknown (.ofFilled f 1 [asked.1]) = true ∧
      (c.node f .unknown 1 [asked.1]).1.text?.isSome = true ∧
      Made f true (.element (.ofFilled f 1 [asked.1])) ∧ (Element.ofFilled f 1 [asked.1]).Whole := by
  intro f asked c
  have hasked : Made f false (.interner asked.2) := .tokenAfter 2 [0x61] .interner
  have hc : Made f false (.interner c) := .nodeAfter .unknown 1 hasked (List.forall_mem_singleton.mpr .empty) nofun
  have htoken : ∀ e ∈ [asked.1], Made f false (.element e) :=
    List.forall_mem_singleton.mpr (.tokenAnswer 2 [0x61] .interner)
  have hplain : Made f true (.element (.ofFilled f 1 [asked.1])) :=
    .node 1 (List.forall_mem_singleton.mpr (.tokenAnswer 2 [0x61] .interner))
  obtain ⟨hagrees, hwhole⟩ := interned_agrees f
  obtain ⟨hequal, -, htext⟩ := hagrees .unknown .unknown 1 hc htoken
  exact ⟨hc, htoken, hequal.mpr (List.forall_mem_singleton.mpr rfl), htext.mpr (List.forall_mem_singleton.mpr .token),
    hplain, (hwhole _ hplain rfl).1⟩

/-- Over an empty element it makes a node that differs from the plain one and has no text. -/
theorem interned_empty_disagrees :
    let f := Fingerprint.standard
    let interned := (Interner.node f {} .unknown 1 [.empty]).1
    let plain := Element.ofFilled f 1 [.empty]
    Made f false (.interner {}) ∧ (∀ e ∈ [Element.empty], Made f false (.element e)) ∧
      interned.equal .unknown plain = false ∧ interned.text? = none ∧ plain.text? = some [] := by
  refine ⟨.interner, List.forall_mem_singleton.mpr .empty, by decide, by decide +kernel, by decide +kernel⟩

/-- In every node that can be made without an empty child, the written length is that of its text, which is the texts
of the children in order, and a child starts where the children before it end. A splice succeeds exactly if its ends
are in order and in range and no element is empty, and then its text is that of the node with the new texts in the
place of what stood between the two edges. -/
theorem made_measured {h : UInt64} {k : Kind} {cs : List Element} {offsets : List Nat} {n : Nat}
    (hnode : Made f true (.element (.node h k cs offsets n))) :
    ∃ text texts, (Element.node h k cs offsets n).text? = some text ∧ n = text.length ∧
      List.Forall₂ (fun c s => c.text? = some s ∧ c.length = s.length) cs texts ∧ text = texts.flatten ∧
      (∀ i, (Element.node h k cs offsets n).childOffset? i =
        if i < cs.length then some ((cs.take i).map Element.length).sum else none) ∧
      ∀ (start stop : Int) (es : List Element), (∀ e ∈ es, Made f true (.element e)) →
        ((∃ made, splice f k cs start stop es = .ok made) ↔
          0 ≤ start ∧ start ≤ stop ∧ stop ≤ cs.length ∧ ∀ e ∈ es, e.isFilled = true) ∧
        ∀ made, splice f k cs start stop es = .ok made → ∃ low high parts,
          (Element.node h k cs offsets n).edge? start.toNat = some low ∧
          (Element.node h k cs offsets n).edge? stop.toNat = some high ∧
          List.Forall₂ (fun e s => e.text? = some s) es parts ∧
          made.text? = some (text.take low ++ parts.flatten ++ text.drop high) := by
  have hexact : (Element.node h k cs offsets n).Exact f true := hnode.sound
  have hcs : Fit f true cs := hexact.fit
  obtain ⟨texts, hread, htext⟩ := exists_reads hcs k
  have hlength : (Element.node h k cs offsets n).length = texts.flatten.length := by
    rw [hexact.eq_ofChildren, htext.2]
  rw [hexact.eq_ofChildren]
  refine ⟨texts.flatten, texts, htext.1, hlength, hread, rfl, childOffset?_ofChildren k cs, ?_⟩
  intro start stop es hes
  have hparts : ∀ e ∈ es, e.Exact f true := fun e he => (hes e he).sound
  constructor
  · constructor
    · rintro ⟨made, hmade⟩
      obtain ⟨hstart, horder, hstop, hfilled, -⟩ := splice_eq_ok_iff.mp hmade
      exact ⟨hstart, horder, hstop, hfilled⟩
    · rintro ⟨hstart, horder, hstop, hfilled⟩
      exact ⟨_, splice_eq_ok_iff.mpr ⟨hstart, horder, hstop, hfilled, rfl⟩⟩
  · intro made hmade
    have hfilled := (splice_eq_ok_iff.mp hmade).2.2.2.1
    obtain ⟨parts, hreads, -⟩ := exists_reads (.of_isFilled hparts hfilled) k
    obtain ⟨low, high, hlow, hhigh, hspliced⟩ := reads_splice hcs hparts hread hreads hmade
    exact ⟨low, high, parts, hlow, hhigh, hreads.imp fun _ _ hr => hr.1, hspliced.1⟩

/-- The first of two tokens gives way to the node over both. -/
theorem made_measured_spliced :
    let f := Fingerprint.standard
    let pair := Element.ofFilled f 1 [.ofToken f 2 [0x61], .empty, .ofToken f 2 [0x62, 0x63]]
    Made f true (.element pair) ∧ pair.text? = some [0x61, 0x62, 0x63] ∧ pair.childOffset? 1 = some 1 ∧
      ∃ made, splice f 1 pair.children 0 1 [pair] = .ok made ∧
        made.text? = some ([0x61, 0x62, 0x63] ++ [0x62, 0x63]) := by
  intro f pair
  have hparts : ∀ e ∈ [Element.ofToken f 2 [0x61], .empty, .ofToken f 2 [0x62, 0x63]], Made f true (.element e) := by
    simpa using ⟨.token 2 [0x61], .empty, .token 2 [0x62, 0x63]⟩
  have hpair : Made f true (.element pair) := .node 1 hparts
  obtain ⟨text, texts, htext, -, -, -, hoffset, hsplice⟩ := made_measured hpair
  obtain ⟨hok, hspliced⟩ := hsplice 0 1 [pair] (List.forall_mem_singleton.mpr hpair)
  obtain ⟨made, hmade⟩ := hok.mpr ⟨by decide, by decide, by decide, List.forall_mem_singleton.mpr rfl⟩
  obtain ⟨low, high, parts, hlow, hhigh, hread, hresult⟩ := hspliced made hmade
  have hpairText : pair.text? = some [0x61, 0x62, 0x63] := by decide +kernel
  have hoffset1 : pair.childOffset? 1 = some 1 := hoffset 1
  obtain rfl : text = [0x61, 0x62, 0x63] := Option.some.inj (htext.symm.trans hpairText)
  obtain rfl : 0 = low := Option.some.inj hlow
  obtain rfl : 1 = high := Option.some.inj hhigh
  cases hread with
  | cons hpart hnil =>
    cases hnil
    cases hpart.symm.trans hpairText
    exact ⟨hpair, hpairText, hoffset1, made, hmade, hresult⟩

end LosslessTree
