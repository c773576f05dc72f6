import LosslessTree.Proofs.Tree.Builder

/-! What a finished session has built. The elements of a builder hold the tokens that were fed, in
order; together with the open nodes they account for every call that opened a node; and what lies
outside all open nodes is never a bare token. None of this depends on where checkpoints come from. -/
namespace LosslessTree
namespace Builder

/-- Where the outermost open node starts; without one, after the last element. -/
def outermost (b : Builder) : Nat := (b.opened.getLast?.map OpenNode.start).getD b.elements.size

/-- The builder was fed these tokens, and nodes of these kinds were opened. -/
structure Holds (b : Builder) (tokens : List Leaf) (kinds : List Kind) : Prop where
  leaves : b.elements.toList.flatMap Tree.leaves = tokens
  kinds : (b.elements.toList.flatMap Tree.nodeKinds ++ b.opened.map OpenNode.kind).Perm kinds
  roots : ∀ (i : Nat) (t : Tree), b.elements[i]? = some t → i < b.outermost → t.isNode

lemma holds_empty (cache : Cache) : ({ cache := cache } : Builder).Holds [] [] :=
  ⟨rfl, .nil, by intro i t h; simp at h⟩

lemma ordered_empty (cache : Cache) : ({ cache := cache } : Builder).Ordered :=
  ⟨.nil, by intro node hn; cases hn⟩

variable {b : Builder}

/-- Opening a node inside another one does not move the outermost. -/
lemma outermost_cons (node : OpenNode) (h : b.opened ≠ []) :
    ({ b with opened := node :: b.opened } : Builder).outermost = b.outermost := by
  simp [outermost, List.getLast?_cons, List.getLast?_eq_some_getLast h]

lemma outermost_le (hb : b.Ordered) : b.outermost ≤ b.elements.size := by
  unfold outermost
  cases h : b.opened.getLast? with
  | none => exact Nat.le_refl _
  | some node => exact hb.bounded node (List.mem_of_getLast? h)

/-- A new open node that starts among the elements is one more on the account. -/
lemma Holds.open {tokens : List Leaf} {kinds : List Kind} (h : b.Holds tokens kinds) (node : OpenNode)
    (hn : node.start ≤ b.elements.size) :
    ({ b with opened := node :: b.opened } : Builder).Holds tokens (kinds ++ [node.kind]) := by
  refine ⟨h.leaves, ?_, ?_⟩
  · calc b.elements.toList.flatMap Tree.nodeKinds ++ node.kind :: b.opened.map OpenNode.kind
      _ |>.Perm (node.kind :: (b.elements.toList.flatMap Tree.nodeKinds ++ b.opened.map OpenNode.kind)) :=
        List.perm_middle
      _ |>.Perm (node.kind :: kinds) := h.kinds.cons _
      _ |>.Perm (kinds ++ [node.kind]) := (List.perm_append_singleton _ _).symm
  · intro i t hi hlt
    apply h.roots i t hi
    by_cases ho : b.opened = []
    · simp only [outermost, ho, List.getLast?_singleton, List.getLast?_nil, Option.map_some, Option.map_none,
        Option.getD_some, Option.getD_none] at hlt ⊢
      omega
    · rwa [outermost_cons node ho] at hlt

lemma Holds.token {tokens : List Leaf} {kinds : List Kind} (h : b.Holds tokens kinds) (hb : b.Ordered)
    (ho : b.opened ≠ []) (cache : Cache) (k : Kind) (text : Bytes) :
    ({ b with cache := cache, elements := b.elements.push (.token k text) } : Builder).Holds
      (tokens ++ [⟨k, text⟩]) kinds := by
  refine ⟨by simp [h.leaves], by simpa using h.kinds, ?_⟩
  intro i t hi hlt
  have hout : ({ b with cache := cache, elements := b.elements.push (.token k text) } : Builder).outermost =
      b.outermost := by
    simp [outermost, List.getLast?_eq_some_getLast ho]
  rw [hout] at hlt
  have hle := outermost_le hb
  rw [Array.getElem?_push, if_neg (by omega)] at hi
  exact h.roots i t hi hlt

/-- Closing a node keeps the account: its kind moves from the open nodes to the elements. -/
lemma Holds.finish {tokens : List Leaf} {kinds : List Kind} (h : b.Holds tokens kinds) (hb : b.Ordered)
    {top : OpenNode} {rest : List OpenNode} (ho : b.opened = top :: rest) (cache : Cache) :
    ({ b with
        cache := cache
        opened := rest
        elements := (b.elements.extract 0 top.start).push
          (.node top.kind (b.elements.extract top.start b.elements.size).toList) } : Builder).Holds
      tokens kinds := by
  have hlist := toList_close b.elements top.start top.kind
  have hsplit := List.take_append_drop top.start b.elements.toList
  have hstart := hb.bounded top (by simp [ho])
  refine ⟨?_, ?_, ?_⟩
  · rw [hlist, ← h.leaves]
    simp only [List.flatMap_append, List.flatMap_cons, List.flatMap_nil, Tree.leaves_node, List.append_nil]
    rw [← List.flatMap_append, hsplit]
  · have hk := h.kinds
    rw [ho, ← hsplit] at hk
    rw [hlist]
    refine List.Perm.trans ?_ hk
    simp only [List.flatMap_append, List.flatMap_cons, List.flatMap_nil, Tree.nodeKinds_node, List.append_nil,
      List.map_cons, List.append_assoc, List.cons_append]
    exact (List.perm_middle.symm).append_left _
  · intro i t hi hlt
    rw [Array.getElem?_push] at hi
    split at hi
    · cases hi
      rfl
    · rw [Array.getElem?_extract] at hi
      split at hi
      · next hne hlt' =>
        apply h.roots i t (by simpa using hi)
        -- Below another open node the outermost stays; else it was the node just closed.
        cases rest with
        | nil => simp only [outermost, ho, List.getLast?_singleton, Option.map_some, Option.getD_some]; omega
        | cons node rest => simpa [outermost, ho, List.getLast?_cons] using hlt
      · cases hi

/-- A root is given exactly if nothing failed, nothing is open and one element is left. -/
lemma root_eq_ok_iff {t : Tree} :
    b.root = .ok t ↔ b.failure = none ∧ b.opened = [] ∧ b.elements.toList = [t] := by
  unfold root
  cases hf : b.failure with
  | some cause => simp
  | none =>
    cases ho : b.opened with
    | cons top rest => simp [depth, ho]
    | nil =>
      simp only [depth, ho, List.length_nil, ne_eq, not_true_eq_false, if_false, true_and]
      split <;> simp_all

end Builder

namespace BuildSession

variable {s t : BuildSession} {e : BuildEvent} {events : List BuildEvent} {tokens : List Leaf}
  {kinds : List Kind}

/-- One call adds at most its token and at most one node to the account. -/
lemma Step.holds (h : Step s e t) (ho : s.builder.Ordered) (hs : s.builder.Holds tokens kinds) :
    t.builder.Holds (tokens ++ e.leaf?.toList) (kinds ++ e.opens?.toList) := by
  cases h with
  | start k =>
    change Builder.Holds _ (tokens ++ []) (kinds ++ [k])
    rw [List.append_nil]
    exact hs.open ⟨k, s.builder.elements.size⟩ (Nat.le_refl _)
  | token k text inside =>
    change Builder.Holds _ (tokens ++ [⟨k, text⟩]) (kinds ++ [])
    rw [List.append_nil]
    exact hs.token ho inside _ k text
  | finishNode top rest opened =>
    change Builder.Holds _ (tokens ++ []) (kinds ++ [])
    rw [List.append_nil, List.append_nil]
    exact hs.finish ho opened _
  | checkpoint =>
    change Builder.Holds _ (tokens ++ []) (kinds ++ [])
    rwa [List.append_nil, List.append_nil]
  | startAt i cp k taken fits =>
    change Builder.Holds _ (tokens ++ []) (kinds ++ [k])
    rw [List.append_nil]
    exact hs.open ⟨k, cp.position⟩ fits.emitted

/-- What a session was told is what it holds. -/
lemma Runs.holds (h : Runs s events t) (ho : s.builder.Ordered) (hs : s.builder.Holds tokens kinds) :
    t.builder.Holds (tokens ++ events.filterMap BuildEvent.leaf?)
      (kinds ++ events.filterMap BuildEvent.opens?) := by
  induction h generalizing tokens kinds with
  | nil s => simpa using hs
  | @cons s t u e events head tail ih =>
    have hu := ih (head.ordered ho) (head.holds ho hs)
    simpa [List.filterMap_eq_flatMap_toList] using hu

/-- A session after construction or an earlier end, with any checkpoints taken before it. -/
def fresh (cache : Cache) (stale : Array Checkpoint) : BuildSession :=
  { builder := { cache := cache }, checkpoints := stale }

/-- Ending a session gives a root exactly if every call was taken, no node is open and one element is
left. The root is then a node that holds the tokens in the order they came and one node per call that
opened one; and on the way the open nodes always start in order, at positions that exist. -/
theorem finish_faithful (cache : Cache) (stale : Array Checkpoint) (events : List BuildEvent)
    (t : BuildSession) (h : (fresh cache stale).run? events = some t) :
    ((∃ root, t.builder.finish.1 = .ok root) ↔
      Runs (fresh cache stale) events t ∧ t.builder.opened = [] ∧ t.builder.elements.size = 1) ∧
    (∀ root, t.builder.finish.1 = .ok root →
      root.isNode ∧ root.leaves = events.filterMap BuildEvent.leaf? ∧
        root.nodeKinds.Perm (events.filterMap BuildEvent.opens?)) ∧
    (∀ before u, before <+: events → (fresh cache stale).run? before = some u → u.builder.Ordered) := by
  have hok : t.builder.failure = none ↔ Runs (fresh cache stale) events t := by
    constructor
    · intro ht
      exact (run?_iff.mp ⟨h, ht⟩).2
    · intro hr
      exact (run?_iff.mpr ⟨rfl, hr⟩).2
  refine ⟨?_, ?_, ?_⟩
  · rw [← hok]
    constructor
    · rintro ⟨root, hroot⟩
      obtain ⟨hf, ho, he⟩ := Builder.root_eq_ok_iff.mp hroot
      exact ⟨hf, ho, by rw [← Array.length_toList, he]; rfl⟩
    · rintro ⟨hf, ho, hsize⟩
      obtain ⟨root, he⟩ := List.length_eq_one_iff.mp ((Array.length_toList).trans hsize)
      exact ⟨root, Builder.root_eq_ok_iff.mpr ⟨hf, ho, he⟩⟩
  · intro root hroot
    obtain ⟨hf, ho, he⟩ := Builder.root_eq_ok_iff.mp hroot
    have hholds := (hok.mp hf).holds (Builder.ordered_empty cache) (Builder.holds_empty cache)
    refine ⟨hholds.roots 0 root ?_ ?_, ?_, ?_⟩
    · rw [← Array.getElem?_toList, he]; rfl
    · simp [Builder.outermost, ho, ← Array.length_toList, he]
    · simpa [he] using hholds.leaves
    · simpa [he, ho] using hholds.kinds
  · intro before u _ hu
    exact ordered_of_run? hu (Builder.ordered_empty cache)

/-- A checkpoint from an earlier session that happens to fit wraps a token of this one. -/
theorem finish_faithful_stale :
    ∃ t root, (fresh {} #[⟨1, 0⟩]).run?
        [.start 7, .token 1 [0x61], .startAt 0 8, .finishNode, .finishNode] = some t ∧
      t.builder.finish.1 = .ok root ∧ root.isNode ∧ root.leaves = [⟨1, [0x61]⟩] ∧
      root.nodeKinds.Perm [7, 8] := by
  refine ⟨_, .node 7 [.node 8 [.token 1 [0x61]]], rfl, rfl, ?_⟩
  exact (finish_faithful {} #[⟨1, 0⟩]
    [.start 7, .token 1 [0x61], .startAt 0 8, .finishNode, .finishNode] _ rfl).2.1 _ rfl

end BuildSession
end LosslessTree
