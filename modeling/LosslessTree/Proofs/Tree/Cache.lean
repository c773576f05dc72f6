import LosslessTree.Proofs.Tree.Content
import LosslessTree.Tree.Cache
import Mathlib.Data.Finset.Card
import Mathlib.Data.List.Forall2

/-! What a cache answers and counts. Whatever the fingerprint, equality through it is equality, so a
request is answered by the very thing it asks for. A request meets an entry exactly if it was made
before or the entry was there from the start; hence the counters depend on which requests were made,
and neither on the fingerprint nor on the order. -/
namespace LosslessTree

namespace Tree

variable (f : Fingerprint)

lemma markAll_eq_map (cs : List Tree) : markAll f cs = cs.map (mark f) := by
  induction cs with
  | nil => rfl
  | cons c cs ih => rw [markAll, ih, List.map_cons]

/-- Child lists of one length are equal if their members are, one by one. -/
lemma equalAll_mark_iff {cs : List Tree}
    (ih : ∀ c ∈ cs, ∀ d : Tree, (c.mark f).equal (d.mark f) = true ↔ c = d) :
    ∀ ds : List Tree, cs.length = ds.length →
      (Marked.equalAll (cs.map (mark f)) (ds.map (mark f)) = true ↔ cs = ds) := by
  induction cs with
  | nil =>
    intro ds hlen
    have hds : ds = [] := List.length_eq_zero_iff.mp hlen.symm
    simp [hds, Marked.equalAll]
  | cons c cs ihs =>
    intro ds hlen
    cases ds with
    | nil => simp at hlen
    | cons d ds =>
      have hhead := ih c List.mem_cons_self d
      have htail := ihs (fun c hc => ih c (List.mem_cons_of_mem _ hc)) ds (by simpa using hlen)
      rw [List.map_cons, List.map_cons, Marked.equalAll, Bool.and_eq_true, hhead, htail, List.cons.injEq]

/-- Collisions do no harm: through every fingerprint, equality is equality. -/
theorem equal_iff (a b : Tree) : a.equal f b = true ↔ a = b := by
  unfold equal
  induction a generalizing b with
  | token k s =>
    cases b with
    | token l t =>
      constructor
      · intro h
        simp only [mark, Marked.equal, Bool.and_eq_true, beq_iff_eq] at h
        rw [h.1.2, h.2]
      · rintro ⟨⟩
        simp [mark, Marked.equal]
    | node l ds => simp [mark, Marked.equal]
  | node k cs ih =>
    cases b with
    | token l t => simp [mark, Marked.equal]
    | node l ds =>
      constructor
      · intro h
        simp only [mark, markAll_eq_map, Marked.equal, Bool.and_eq_true, beq_iff_eq, List.length_map] at h
        obtain ⟨⟨⟨⟨-, hkind⟩, -⟩, hlen⟩, hall⟩ := h
        rw [hkind, (equalAll_mark_iff f ih ds hlen).mp hall]
      · rintro ⟨⟩
        have hall := (equalAll_mark_iff f ih cs rfl).mpr rfl
        simp [mark, markAll_eq_map, Marked.equal, hall]

end Tree

lemma Slot.equal_iff (f : Fingerprint) (x y : Slot) : Slot.equal f x y = true ↔ x = y := by
  cases x <;> cases y <;> simp [Slot.equal, Tree.equal_iff]

/-- Lists of slots are equal if the slots are, one by one. -/
lemma Slot.forall_zip_equal_iff (f : Fingerprint) (xs ys : List Slot) :
    (xs.length = ys.length ∧ ∀ p ∈ xs.zip ys, Slot.equal f p.1 p.2 = true) ↔ xs = ys := by
  rw [← List.forall₂_eq_eq_eq, List.forall₂_iff_zip]
  simp only [Slot.equal_iff, Prod.forall]

theorem NodeKey.equal_iff (f : Fingerprint) (a b : NodeKey) : a.equal f b = true ↔ a = b := by
  cases a
  cases b
  simp only [equal, Bool.and_eq_true, beq_iff_eq, List.all_eq_true, and_assoc, Slot.forall_zip_equal_iff,
    NodeKey.mk.injEq]

/-- Looking for the only value that passes a test. -/
lemma List.find?_of_eq_iff {α : Type} {p : α → Bool} {x : α} (hp : ∀ y, p y = true ↔ y = x)
    (l : List α) [Decidable (x ∈ l)] : l.find? p = if x ∈ l then some x else none := by
  by_cases hx : x ∈ l
  · rw [if_pos hx]
    cases hf : l.find? p with
    | none => exact absurd ((hp x).mpr rfl) (by simpa using List.find?_eq_none.mp hf x hx)
    | some y => rw [(hp y).mp (List.find?_some hf)]
  · rw [if_neg hx, List.find?_eq_none]
    intro y hy hpy
    exact hx ((hp y).mp hpy ▸ hy)

/-- What a cache has counted of one sort of element. -/
structure Tally where
  hits : Nat
  misses : Nat
  entries : Nat

namespace CacheStats

/-- The counters for nodes, or those for tokens. -/
def tally (s : CacheStats) (ofNodes : Bool) : Tally :=
  if ofNodes then ⟨s.nodeHits, s.nodeMisses, s.nodes⟩ else ⟨s.tokenHits, s.tokenMisses, s.tokens⟩

/-- Counters agree if misses, entries and the numbers of requests do. -/
lemma eq_of_tally {s t : CacheStats} (h : ∀ b, (s.tally b).misses = (t.tally b).misses ∧
    (s.tally b).entries = (t.tally b).entries ∧
    (s.tally b).hits + (s.tally b).misses = (t.tally b).hits + (t.tally b).misses) : s = t := by
  obtain ⟨hnm, hne, hns⟩ : s.nodeMisses = t.nodeMisses ∧ s.nodes = t.nodes ∧
    s.nodeHits + s.nodeMisses = t.nodeHits + t.nodeMisses := h true
  obtain ⟨htm, hte, hts⟩ : s.tokenMisses = t.tokenMisses ∧ s.tokens = t.tokens ∧
    s.tokenHits + s.tokenMisses = t.tokenHits + t.tokenMisses := h false
  have hnh : s.nodeHits = t.nodeHits := by omega
  have hth : s.tokenHits = t.tokenHits := by omega
  cases s
  cases t
  simp_all

end CacheStats

namespace Cache

/-- Requests an element: a token, or a node over children that are all there. -/
def intern (c : Cache) : Tree → Tree × Cache
  | .token k s =>
    let (entry, c) := c.internToken k s
    (.token entry.kind entry.text, c)
  | .node k cs =>
    let (entry, c) := c.internNode k (cs.map some)
    (.ofSlots entry.kind entry.slots, c)

/-- Requests one after the other, with the answers in order. -/
def serve (c : Cache) : List Tree → List Tree × Cache
  | [] => ([], c)
  | t :: ts =>
    let first := c.intern t
    let later := first.2.serve ts
    (first.1 :: later.1, later.2)

/-- There is an entry that a request for `t` meets. -/
def Holds (c : Cache) : Tree → Prop
  | .token k s => (c.fingerprint.token k s, ⟨k, s⟩) ∈ c.tokens
  | .node k cs =>
    ((NodeKey.mk k (cs.map some)).fingerprint c.fingerprint, ⟨k, cs.map some⟩) ∈ c.nodes

instance (c : Cache) : DecidablePred c.Holds
  | .token k s => inferInstanceAs (Decidable ((c.fingerprint.token k s, ⟨k, s⟩) ∈ c.tokens))
  | .node k cs => inferInstanceAs (Decidable
      (((NodeKey.mk k (cs.map some)).fingerprint c.fingerprint, ⟨k, cs.map some⟩) ∈ c.nodes))

variable {c d : Cache} {t : Tree} {ts : List Tree}

lemma find?_tokens (c : Cache) (k : Kind) (s : Bytes) :
    (c.tokens.find? fun (h, entry) =>
      h == c.fingerprint.token k s && entry.kind == k && entry.text == s) =
      if (c.fingerprint.token k s, ⟨k, s⟩) ∈ c.tokens then some (c.fingerprint.token k s, ⟨k, s⟩)
      else none := by
  apply List.find?_of_eq_iff
  rintro ⟨h, l, t⟩
  simp [and_assoc]

lemma find?_nodes (c : Cache) (key : NodeKey) :
    (c.nodes.find? fun (h, entry) => h == key.fingerprint c.fingerprint && entry.equal c.fingerprint key) =
      if (key.fingerprint c.fingerprint, key) ∈ c.nodes then some (key.fingerprint c.fingerprint, key)
      else none := by
  apply List.find?_of_eq_iff
  rintro ⟨h, entry⟩
  simp [NodeKey.equal_iff]

/-- A token is answered by itself. -/
lemma internToken_fst (c : Cache) (k : Kind) (s : Bytes) : (c.internToken k s).1 = ⟨k, s⟩ := by
  simp only [internToken, find?_tokens]
  split_ifs <;> rfl

lemma internNode_fst (c : Cache) (k : Kind) (slots : List Slot) :
    (c.internNode k slots).1 = ⟨k, slots⟩ := by
  simp only [internNode, find?_nodes]
  split_ifs <;> rfl

lemma ofSlots_map_some (k : Kind) (cs : List Tree) : Tree.ofSlots k (cs.map some) = .node k cs := by
  simp [Tree.ofSlots, List.filterMap_map]

/-- Every request is answered by the very element it asks for. -/
theorem intern_fst (c : Cache) (t : Tree) : (c.intern t).1 = t := by
  cases t with
  | token k s => simp only [intern, internToken_fst]
  | node k cs => simp only [intern, internNode_fst, ofSlots_map_some]

/-- What a request does to a cache: it is counted, and makes an entry if it met none. -/
inductive Interned (c : Cache) : Tree → Cache → Prop
  | tokenHit {k : Kind} {s : Bytes} (held : c.Holds (.token k s)) :
      Interned c (.token k s) { c with stats.tokenHits := c.stats.tokenHits + 1 }
  | tokenMiss {k : Kind} {s : Bytes} (absent : ¬ c.Holds (.token k s)) :
      Interned c (.token k s) { c with
        tokens := (c.fingerprint.token k s, ⟨k, s⟩) :: c.tokens
        stats.tokenMisses := c.stats.tokenMisses + 1
        stats.tokens := c.stats.tokens + 1 }
  | nodeHit {k : Kind} {cs : List Tree} (held : c.Holds (.node k cs)) :
      Interned c (.node k cs) { c with stats.nodeHits := c.stats.nodeHits + 1 }
  | nodeMiss {k : Kind} {cs : List Tree} (absent : ¬ c.Holds (.node k cs)) :
      Interned c (.node k cs) { c with
        nodes := ((NodeKey.mk k (cs.map some)).fingerprint c.fingerprint, ⟨k, cs.map some⟩) :: c.nodes
        stats.nodeMisses := c.stats.nodeMisses + 1
        stats.nodes := c.stats.nodes + 1 }

theorem interned_intern (c : Cache) (t : Tree) : Interned c t (c.intern t).2 := by
  cases t with
  | token k s =>
    by_cases h : c.Holds (.token k s)
    · simp only [intern, internToken, find?_tokens, if_pos (show _ ∈ c.tokens from h)]
      exact .tokenHit h
    · simp only [intern, internToken, find?_tokens, if_neg (show _ ∉ c.tokens from h)]
      exact .tokenMiss h
  | node k cs =>
    by_cases h : c.Holds (.node k cs)
    · simp only [intern, internNode, find?_nodes, if_pos (show _ ∈ c.nodes from h)]
      exact .nodeHit h
    · simp only [intern, internNode, find?_nodes, if_neg (show _ ∉ c.nodes from h)]
      exact .nodeMiss h

lemma Interned.fingerprint_eq (h : Interned c t d) : d.fingerprint = c.fingerprint := by
  cases h <;> rfl

/-- After a request exactly one element more may be held: the one that was asked for. -/
lemma Interned.holds_iff (h : Interned c t d) (u : Tree) : d.Holds u ↔ u = t ∨ c.Holds u := by
  have hheld : c.Holds t → (c.Holds u ↔ u = t ∨ c.Holds u) := by
    intro ht
    constructor
    · exact .inr
    · rintro (rfl | hu)
      · exact ht
      · exact hu
  cases h with
  | tokenHit held => exact hheld held
  | nodeHit held => exact hheld held
  | @tokenMiss k s absent =>
    cases u with
    | node l ds => simp [Holds]
    | token l r =>
      simp only [Holds, List.mem_cons, Prod.mk.injEq, Leaf.mk.injEq, Tree.token.injEq]
      apply or_congr_left
      constructor
      · exact And.right
      · rintro ⟨rfl, rfl⟩
        exact ⟨rfl, rfl, rfl⟩
  | @nodeMiss k cs absent =>
    cases u with
    | token l r => simp [Holds]
    | node l ds =>
      have hsome : ds.map some = cs.map some ↔ ds = cs :=
        (List.map_injective_iff.mpr (Option.some_injective Tree)).eq_iff
      simp only [Holds, List.mem_cons, Prod.mk.injEq, NodeKey.mk.injEq, Tree.node.injEq, hsome]
      apply or_congr_left
      constructor
      · exact And.right
      · rintro ⟨rfl, rfl⟩
        exact ⟨rfl, rfl, rfl⟩

/-- A request is one more hit if there was an entry. -/
lemma Interned.tally_of_holds (h : Interned c t d) (ht : c.Holds t) :
    d.stats.tally t.isNode = { c.stats.tally t.isNode with hits := (c.stats.tally t.isNode).hits + 1 } := by
  cases h with
  | tokenHit held => rfl
  | nodeHit held => rfl
  | tokenMiss absent => exact absurd ht absent
  | nodeMiss absent => exact absurd ht absent

/-- Otherwise it is one more miss and one more entry. -/
lemma Interned.tally_of_not_holds (h : Interned c t d) (ht : ¬ c.Holds t) :
    d.stats.tally t.isNode =
      { c.stats.tally t.isNode with
        misses := (c.stats.tally t.isNode).misses + 1
        entries := (c.stats.tally t.isNode).entries + 1 } := by
  cases h with
  | tokenHit held => exact absurd held ht
  | nodeHit held => exact absurd held ht
  | tokenMiss absent => rfl
  | nodeMiss absent => rfl

/-- Tokens and nodes are counted apart. -/
lemma Interned.tally_of_ne (h : Interned c t d) {b : Bool} (hb : t.isNode ≠ b) :
    d.stats.tally b = c.stats.tally b := by
  cases h <;> cases b <;> first | rfl | exact absurd rfl hb

/-- Entries stay where they are; a new one goes in front. -/
lemma Interned.suffix (h : Interned c t d) : c.tokens <:+ d.tokens ∧ c.nodes <:+ d.nodes := by
  cases h with
  | tokenHit held => exact ⟨List.suffix_refl _, List.suffix_refl _⟩
  | nodeHit held => exact ⟨List.suffix_refl _, List.suffix_refl _⟩
  | tokenMiss absent => exact ⟨List.suffix_cons _ _, List.suffix_refl _⟩
  | nodeMiss absent => exact ⟨List.suffix_refl _, List.suffix_cons _ _⟩

/-- The requested elements of one sort that the cache does not hold yet. -/
def missing (c : Cache) (ts : List Tree) (b : Bool) : Finset Tree :=
  {t ∈ ts.toFinset | t.isNode = b ∧ ¬ c.Holds t}

/-- A request for another sort, or for something held, leaves as much missing as before. -/
lemma Interned.missing_of_held (h : Interned c t d) {b : Bool} (ht : t.isNode = b → c.Holds t) :
    c.missing (t :: ts) b = d.missing ts b := by
  ext u
  simp only [missing, Finset.mem_filter, List.mem_toFinset, List.mem_cons, h.holds_iff]
  constructor
  · rintro ⟨rfl | hu, hb, hn⟩
    · exact absurd (ht hb) hn
    · refine ⟨hu, hb, ?_⟩
      rintro (rfl | hc)
      · exact hn (ht hb)
      · exact hn hc
  · rintro ⟨hu, hb, hn⟩
    exact ⟨.inr hu, hb, fun hc => hn (.inr hc)⟩

/-- A missing element is missing only once. -/
lemma Interned.missing_of_not_holds (h : Interned c t d) (ht : ¬ c.Holds t) (ts : List Tree) :
    c.missing (t :: ts) t.isNode = insert t (d.missing ts t.isNode) ∧ t ∉ d.missing ts t.isNode := by
  constructor
  · ext u
    simp only [missing, Finset.mem_filter, Finset.mem_insert, List.mem_toFinset, List.mem_cons, h.holds_iff]
    constructor
    · rintro ⟨rfl | hu, hb, hn⟩
      · exact .inl rfl
      · by_cases hut : u = t
        · exact .inl hut
        · exact .inr ⟨hu, hb, by rintro (rfl | hc) <;> contradiction⟩
    · rintro (rfl | ⟨hu, hb, hn⟩)
      · exact ⟨.inl rfl, rfl, ht⟩
      · exact ⟨.inr hu, hb, fun hc => hn (.inr hc)⟩
  · simp [missing, h.holds_iff]

@[simp] lemma serve_nil (c : Cache) : c.serve [] = ([], c) := rfl

lemma serve_cons (c : Cache) (t : Tree) (ts : List Tree) :
    c.serve (t :: ts) = (t :: ((c.intern t).2.serve ts).1, ((c.intern t).2.serve ts).2) := by
  simp only [serve, intern_fst]

/-- The answers are what was asked for. -/
theorem serve_fst (c : Cache) (ts : List Tree) : (c.serve ts).1 = ts := by
  induction ts generalizing c with
  | nil => rfl
  | cons t ts ih => rw [serve_cons, ih]

lemma serve_append (c : Cache) (ts us : List Tree) :
    (c.serve (ts ++ us)).2 = ((c.serve ts).2.serve us).2 := by
  induction ts generalizing c with
  | nil => rfl
  | cons t ts ih => rw [List.cons_append, serve_cons, serve_cons, ih]

/-- What requests add to the counters: a miss and an entry for each element that was missing, and a
hit for every other request. -/
theorem tally_serve (c : Cache) (ts : List Tree) (b : Bool) :
    ((c.serve ts).2.stats.tally b).misses = (c.stats.tally b).misses + (c.missing ts b).card ∧
    ((c.serve ts).2.stats.tally b).entries = (c.stats.tally b).entries + (c.missing ts b).card ∧
    ((c.serve ts).2.stats.tally b).hits + ((c.serve ts).2.stats.tally b).misses =
      (c.stats.tally b).hits + (c.stats.tally b).misses + ts.countP (·.isNode == b) := by
  induction ts generalizing c with
  | nil => simp [missing]
  | cons t ts ih =>
    have hd := c.interned_intern t
    obtain ⟨hmiss, hentry, hsum⟩ := ih (c.intern t).2
    rw [serve_cons, List.countP_cons]
    by_cases hb : t.isNode = b
    · subst hb
      by_cases ht : c.Holds t
      · rw [hd.tally_of_holds ht] at hmiss hentry hsum
        rw [hd.missing_of_held fun _ => ht]
        simp only [beq_self_eq_true, if_true] at hmiss hentry hsum ⊢
        omega
      · obtain ⟨hins, hnew⟩ := hd.missing_of_not_holds ht ts
        rw [hd.tally_of_not_holds ht] at hmiss hentry hsum
        rw [hins, Finset.card_insert_of_notMem hnew]
        simp only [beq_self_eq_true, if_true] at hmiss hentry hsum ⊢
        omega
    · rw [hd.tally_of_ne hb] at hmiss hentry hsum
      rw [hd.missing_of_held fun h => absurd h hb]
      simp only [beq_iff_eq, hb, if_false]
      omega

/-- The order of requests does not show in the counters. -/
theorem stats_serve_of_perm {us : List Tree} (c : Cache) (h : ts.Perm us) :
    (c.serve ts).2.stats = (c.serve us).2.stats := by
  apply CacheStats.eq_of_tally
  intro b
  obtain ⟨hm, he, hs⟩ := c.tally_serve ts b
  obtain ⟨hm', he', hs'⟩ := c.tally_serve us b
  have hmissing : c.missing ts b = c.missing us b := by
    rw [missing, List.toFinset_eq_of_perm _ _ h, missing]
  have hcount := h.countP_eq (·.isNode == b)
  rw [hmissing] at hm he
  omega

/-- Entries stand under their own fingerprints, each of them once, and their numbers are known. -/
structure Sound (c : Cache) : Prop where
  tokenHash : ∀ e ∈ c.tokens, e.1 = c.fingerprint.token e.2.kind e.2.text
  nodeHash : ∀ e ∈ c.nodes, e.1 = e.2.fingerprint c.fingerprint
  tokens : (c.tokens.map Prod.snd).Nodup
  nodes : (c.nodes.map Prod.snd).Nodup
  tokenCount : c.stats.tokens = c.tokens.length
  nodeCount : c.stats.nodes = c.nodes.length

lemma sound_empty (f : Fingerprint) : Sound { fingerprint := f } :=
  ⟨by simp, by simp, .nil, .nil, rfl, rfl⟩

/-- An element that is not held has no entry under another fingerprint either. -/
lemma Interned.sound (h : Interned c t d) (hc : c.Sound) : d.Sound := by
  cases h with
  | tokenHit held => exact ⟨hc.tokenHash, hc.nodeHash, hc.tokens, hc.nodes, hc.tokenCount, hc.nodeCount⟩
  | nodeHit held => exact ⟨hc.tokenHash, hc.nodeHash, hc.tokens, hc.nodes, hc.tokenCount, hc.nodeCount⟩
  | @tokenMiss k s absent =>
    have hnew : (⟨k, s⟩ : Leaf) ∉ c.tokens.map Prod.snd := by
      rintro hmem
      obtain ⟨⟨h, entry⟩, he, rfl⟩ := List.mem_map.mp hmem
      have hh : h = c.fingerprint.token k s := hc.tokenHash _ he
      rw [hh] at he
      exact absent he
    refine ⟨?_, hc.nodeHash, List.nodup_cons.mpr ⟨hnew, hc.tokens⟩, hc.nodes, ?_, hc.nodeCount⟩
    · intro e he
      rcases List.mem_cons.mp he with rfl | he
      · rfl
      · exact hc.tokenHash e he
    · simp [hc.tokenCount]
  | @nodeMiss k cs absent =>
    have hnew : (⟨k, cs.map some⟩ : NodeKey) ∉ c.nodes.map Prod.snd := by
      rintro hmem
      obtain ⟨⟨h, entry⟩, he, rfl⟩ := List.mem_map.mp hmem
      have hh : h = (NodeKey.mk k (cs.map some)).fingerprint c.fingerprint := hc.nodeHash _ he
      rw [hh] at he
      exact absent he
    refine ⟨hc.tokenHash, ?_, hc.tokens, List.nodup_cons.mpr ⟨hnew, hc.nodes⟩, hc.tokenCount, ?_⟩
    · intro e he
      rcases List.mem_cons.mp he with rfl | he
      · rfl
      · exact hc.nodeHash e he
    · simp [hc.nodeCount]

lemma Sound.serve (hc : c.Sound) (ts : List Tree) : (c.serve ts).2.Sound := by
  induction ts generalizing c with
  | nil => exact hc
  | cons t ts ih =>
    rw [serve_cons]
    exact ih ((c.interned_intern t).sound hc)

lemma suffix_serve (c : Cache) (ts : List Tree) :
    c.tokens <:+ (c.serve ts).2.tokens ∧ c.nodes <:+ (c.serve ts).2.nodes := by
  induction ts generalizing c with
  | nil => exact ⟨List.suffix_refl _, List.suffix_refl _⟩
  | cons t ts ih =>
    have hone := (c.interned_intern t).suffix
    have hmore := ih (c.intern t).2
    rw [serve_cons]
    exact ⟨hone.1.trans hmore.1, hone.2.trans hmore.2⟩

lemma Sound.pairwise_nodes (hc : c.Sound) :
    c.nodes.Pairwise fun x y => x.2.equal c.fingerprint y.2 = false := by
  refine (List.pairwise_map.mp hc.nodes).imp ?_
  intro x y hne
  rw [← Bool.not_eq_true, NodeKey.equal_iff]
  exact hne

/-- An empty cache misses what it is asked for, each element once. -/
lemma missing_empty (f : Fingerprint) (ts : List Tree) (b : Bool) :
    missing { fingerprint := f } ts b = (ts.filter (·.isNode == b)).toFinset := by
  have hempty : ∀ u, ¬ Holds { fingerprint := f } u := by
    intro u
    cases u <;> simp [Holds]
  ext u
  simp [missing, hempty]

/-- What an empty cache counts of its requests. -/
lemma tally_serve_empty (f : Fingerprint) (ts : List Tree) (b : Bool) :
    let counted := (serve { fingerprint := f } ts).2.stats.tally b
    counted.misses = (ts.filter (·.isNode == b)).toFinset.card ∧ counted.entries = counted.misses ∧
      counted.hits + counted.misses = ts.countP (·.isNode == b) := by
  have hzero : (({ fingerprint := f } : Cache).stats.tally b) = ⟨0, 0, 0⟩ := by cases b <;> rfl
  have h := tally_serve { fingerprint := f } ts b
  rw [missing_empty, hzero] at h
  simp only [Nat.zero_add] at h
  exact ⟨h.1, h.2.1.trans h.1.symm, h.2.2⟩

lemma fingerprint_serve (c : Cache) (ts : List Tree) : (c.serve ts).2.fingerprint = c.fingerprint := by
  induction ts generalizing c with
  | nil => rfl
  | cons t ts ih => rw [serve_cons, ih, (c.interned_intern t).fingerprint_eq]

/-- After any requests to an empty cache, and whatever the fingerprint: equality is equality; no entry
stands there twice; every answer equals what was asked for; an element was a miss once and a hit every
other time, so entries, misses and distinct requests are of one number; and entries have come but never
gone or changed. Another fingerprint gives the same answers and the same counters. -/
theorem serve_exact (f : Fingerprint) (requests : List Tree) :
    let answers := (serve { fingerprint := f } requests).1
    let c := (serve { fingerprint := f } requests).2
    (∀ a b : Tree, a.equal f b = true ↔ a = b) ∧
    (c.tokens.Pairwise fun x y => x.2 ≠ y.2) ∧
    (c.nodes.Pairwise fun x y => x.2.equal f y.2 = false) ∧
    List.Forall₂ (fun t answer => t.equal f answer = true) requests answers ∧
    (c.stats.tokens = c.tokens.length ∧ c.stats.tokens = c.stats.tokenMisses ∧
      c.stats.tokenMisses = (requests.filter (·.isToken)).toFinset.card ∧
      c.stats.tokenHits + c.stats.tokenMisses = requests.countP (·.isToken)) ∧
    (c.stats.nodes = c.nodes.length ∧ c.stats.nodes = c.stats.nodeMisses ∧
      c.stats.nodeMisses = (requests.filter (·.isNode)).toFinset.card ∧
      c.stats.nodeHits + c.stats.nodeMisses = requests.countP (·.isNode)) ∧
    (∀ n, (serve { fingerprint := f } (requests.take n)).2.tokens <:+ c.tokens ∧
      (serve { fingerprint := f } (requests.take n)).2.nodes <:+ c.nodes) ∧
    ∀ g : Fingerprint, (serve { fingerprint := g } requests).1 = answers ∧
      (serve { fingerprint := g } requests).2.stats = c.stats := by
  intro answers c
  have hsound : c.Sound := (sound_empty f).serve requests
  have hprint : c.fingerprint = f := fingerprint_serve _ requests
  have hanswers : answers = requests := serve_fst _ requests
  obtain ⟨htm, hte, hts⟩ : c.stats.tokenMisses = _ ∧ c.stats.tokens = c.stats.tokenMisses ∧
    c.stats.tokenHits + c.stats.tokenMisses = _ := tally_serve_empty f requests false
  obtain ⟨hnm, hne, hns⟩ : c.stats.nodeMisses = _ ∧ c.stats.nodes = c.stats.nodeMisses ∧
    c.stats.nodeHits + c.stats.nodeMisses = _ := tally_serve_empty f requests true
  simp only [beq_false, beq_true] at htm hts hnm hns
  refine ⟨Tree.equal_iff f, List.pairwise_map.mp hsound.tokens, hprint ▸ hsound.pairwise_nodes, ?_,
    ⟨hsound.tokenCount, hte, htm, hts⟩, ⟨hsound.nodeCount, hne, hnm, hns⟩, ?_, ?_⟩
  · rw [hanswers, List.forall₂_same]
    intro t _
    exact (Tree.equal_iff f t t).mpr rfl
  · intro n
    have hsplit : c = ((serve { fingerprint := f } (requests.take n)).2.serve (requests.drop n)).2 := by
      rw [← serve_append, List.take_append_drop]
    rw [hsplit]
    exact suffix_serve _ _
  · intro g
    refine ⟨(serve_fst _ requests).trans hanswers.symm, CacheStats.eq_of_tally fun b => ?_⟩
    obtain ⟨hm, he, hs⟩ := tally_serve_empty f requests b
    obtain ⟨hm', he', hs'⟩ := tally_serve_empty g requests b
    have hmisses := hm'.trans hm.symm
    exact ⟨hmisses, he'.trans (hmisses.trans he.symm), hs'.trans hs.symm⟩

end Cache
end LosslessTree
