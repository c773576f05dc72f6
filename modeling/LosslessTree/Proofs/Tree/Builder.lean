import LosslessTree.Tree.Builder
import LosslessTree.Proofs.Tree.Cache
import Mathlib.Data.List.Perm.Basic

/-! The calls of a building session. `Step` says which calls are taken and what they do; a session
that remembers no failure is exactly one in which every call was taken. Along every session the open
nodes start at increasing positions that exist, no token is lost or moved, and every call that opened
a node accounts for one node. -/
namespace LosslessTree
namespace Builder

variable {b : Builder}

lemma start_of_ok (h : b.failure = none) (k : Kind) :
    b.start k = { b with opened := ⟨k, b.elements.size⟩ :: b.opened } := by
  simp [start, h]

lemma token_of_ok (h : b.failure = none) (ho : b.opened ≠ []) (k : Kind) (text : Bytes) :
    b.token k text =
      { b with cache := b.cache.token k text, elements := b.elements.push (.token k text) } := by
  cases hb : b.opened with
  | nil => exact absurd hb ho
  | cons top rest => simp [token, h, hb, Cache.internToken_fst, Cache.token]

lemma finishNode_of_ok (h : b.failure = none) {top : OpenNode} {rest : List OpenNode}
    (ho : b.opened = top :: rest) :
    b.finishNode =
      { b with
        cache := b.cache.node top.kind
          ((b.elements.extract top.start b.elements.size).toList.map some)
        opened := rest
        elements := (b.elements.extract 0 top.start).push
          (.node top.kind (b.elements.extract top.start b.elements.size).toList) } := by
  simp only [finishNode, h, ho, Cache.internNode_fst, Cache.ofSlots_map_some, Option.isSome_none,
    Bool.false_eq_true, if_false]
  rfl

/-- The elements of a builder after a node over those from `n` on was closed. -/
lemma toList_close (elements : Array Tree) (n : Nat) (k : Kind) :
    ((elements.extract 0 n).push (.node k (elements.extract n elements.size).toList)).toList =
      elements.toList.take n ++ [.node k (elements.toList.drop n)] := by
  have htail : (elements.extract n elements.size).toList = elements.toList.drop n := by
    rw [Array.toList_extract, List.extract_eq_take_drop, List.take_of_length_le (by simp)]
  rw [Array.toList_push, htail]
  simp

/-- A checkpoint fits if it was taken at the present depth and lies inside the current node. -/
structure Fits (b : Builder) (cp : Checkpoint) : Prop where
  depth : cp.depth = b.depth
  emitted : cp.position ≤ b.elements.size
  inside : ∀ top ∈ b.opened.head?, top.start ≤ cp.position

lemma startAt_of_fits (h : b.failure = none) {cp : Checkpoint} (hcp : b.Fits cp) (k : Kind) :
    b.startAt cp k = { b with opened := ⟨k, cp.position⟩ :: b.opened } := by
  have hd : ¬ cp.depth ≠ b.depth := not_not.mpr hcp.depth
  have he : ¬ b.elements.size < cp.position := by have := hcp.emitted; omega
  have hi : ¬ (b.opened.head?.any fun top => decide (cp.position < top.start)) = true := by
    cases ho : b.opened.head? with
    | none => simp
    | some top => have := hcp.inside top ho; simp; omega
  simp [startAt, h, hd, he, hi]

/-- Every other checkpoint is refused. -/
lemma fits_of_startAt {cp : Checkpoint} {k : Kind} (h : (b.startAt cp k).failure = none) :
    b.Fits cp := by
  unfold startAt at h
  split at h
  · simp_all
  · split at h
    · simp [fail] at h
    · next hd =>
      split at h
      · simp [fail] at h
      · next he =>
        split at h
        · simp [fail] at h
        · next hi =>
          refine ⟨not_not.mp hd, by omega, ?_⟩
          intro top ht
          rw [Option.mem_def.mp ht] at hi
          simpa using hi

/-- From `b` to `c` these trees were added to the open node, and the cache was asked for everything in
them, each tree after what is below it. -/
structure Adds (b : Builder) (ts : List Tree) (c : Builder) : Prop where
  accepted : c.failure = none
  opened : c.opened = b.opened
  elements : c.elements.toList = b.elements.toList ++ ts
  cache : c.cache = (b.cache.serve (ts.flatMap Tree.subtrees)).2

section Adds
variable {c d : Builder} {ts us : List Tree} {k : Kind}

lemma adds_self (h : b.failure = none) : b.Adds [] b := ⟨h, rfl, (List.append_nil _).symm, rfl⟩

lemma Adds.trans (h : b.Adds ts c) (h' : c.Adds us d) : b.Adds (ts ++ us) d := by
  refine ⟨h'.accepted, h'.opened.trans h.opened, ?_, ?_⟩
  · rw [h'.elements, h.elements, List.append_assoc]
  · rw [h'.cache, h.cache, List.flatMap_append, Cache.serve_append]

lemma adds_token (h : b.failure = none) (ho : b.opened ≠ []) (k : Kind) (text : Bytes) :
    b.Adds [.token k text] (b.token k text) := by
  rw [token_of_ok h ho]
  exact ⟨h, rfl, Array.toList_push, rfl⟩

/-- Closing a node that is open over these trees adds that node. -/
lemma adds_finishNode (ha : c.failure = none) (ho : c.opened = ⟨k, b.elements.size⟩ :: b.opened)
    (he : c.elements.toList = b.elements.toList ++ ts)
    (hc : c.cache = (b.cache.serve (ts.flatMap Tree.subtrees)).2) : b.Adds [.node k ts] c.finishNode := by
  have hover : (c.elements.extract b.elements.size c.elements.size).toList = ts := by
    rw [Array.toList_extract, List.extract_eq_take_drop, List.take_of_length_le (by simp), he,
      ← Array.length_toList, List.drop_left]
  rw [finishNode_of_ok ha ho, hover]
  refine ⟨ha, rfl, ?_, ?_⟩
  · have hclose := toList_close c.elements b.elements.size k
    rw [hover, he, ← Array.length_toList, List.take_left, List.drop_left] at hclose
    exact hclose
  · rw [List.flatMap_singleton, Tree.subtrees_node, Cache.serve_append, ← hc]
    rfl

/-- A node opened, filled and closed. -/
lemma Adds.node (h : b.failure = none) (h' : (b.start k).Adds ts c) : b.Adds [.node k ts] c.finishNode := by
  have ho := h'.opened
  have he := h'.elements
  have hc := h'.cache
  rw [start_of_ok h] at ho he hc
  exact adds_finishNode h'.accepted ho he hc

/-- A new builder to which one tree was added ends with that tree. -/
lemma Adds.finish {cache : Cache} {t : Tree} (h : Adds { cache := cache } [t] c) :
    c.finish = (.ok t, { cache := (cache.serve t.subtrees).2 }) := by
  have hroot : c.root = .ok t := by
    simp [root, depth, h.accepted, h.opened, h.elements]
  have hcache := h.cache
  rw [List.flatMap_singleton] at hcache
  rw [Builder.finish, hroot, hcache]

end Adds

end Builder

namespace BuildEvent

/-- The token that a call adds. -/
def leaf? : BuildEvent → Option Leaf
  | .token k text => some ⟨k, text⟩
  | _ => none

/-- The kind of the node that a call opens. -/
def opens? : BuildEvent → Option Kind
  | .start k | .startAt _ k => some k
  | _ => none

end BuildEvent

namespace BuildSession

/-- A sequence of calls, one after the other. -/
def run? (s : BuildSession) : List BuildEvent → Option BuildSession
  | [] => some s
  | e :: events => (s.step? e).bind fun s => s.run? events

/-- The calls that are taken, and what they do. -/
inductive Step : BuildSession → BuildEvent → BuildSession → Prop
  | start (s : BuildSession) (k : Kind) :
      Step s (.start k)
        { s with builder.opened := ⟨k, s.builder.elements.size⟩ :: s.builder.opened }
  | token (s : BuildSession) (k : Kind) (text : Bytes) (inside : s.builder.opened ≠ []) :
      Step s (.token k text)
        { s with
          builder.cache := s.builder.cache.token k text
          builder.elements := s.builder.elements.push (.token k text) }
  | finishNode (s : BuildSession) (top : OpenNode) (rest : List OpenNode)
      (opened : s.builder.opened = top :: rest) :
      Step s .finishNode
        { s with
          builder.cache := s.builder.cache.node top.kind
            ((s.builder.elements.extract top.start s.builder.elements.size).toList.map some)
          builder.opened := rest
          builder.elements := (s.builder.elements.extract 0 top.start).push (.node top.kind
            (s.builder.elements.extract top.start s.builder.elements.size).toList) }
  | checkpoint (s : BuildSession) :
      Step s .checkpoint { s with checkpoints := s.checkpoints.push s.builder.checkpoint }
  | startAt (s : BuildSession) (i : Nat) (cp : Checkpoint) (k : Kind)
      (taken : s.checkpoints[i]? = some cp) (fits : s.builder.Fits cp) :
      Step s (.startAt i k) { s with builder.opened := ⟨k, cp.position⟩ :: s.builder.opened }

/-- Calls that are all taken. -/
inductive Runs : BuildSession → List BuildEvent → BuildSession → Prop
  | nil (s : BuildSession) : Runs s [] s
  | cons {s t u : BuildSession} {e : BuildEvent} {events : List BuildEvent}
      (head : Step s e t) (tail : Runs t events u) : Runs s (e :: events) u

variable {s t u : BuildSession} {e : BuildEvent} {events : List BuildEvent}

/-- After a failure calls are ignored. -/
lemma builder_eq_of_failure {cause : BuildError} (h : s.step? e = some t)
    (hs : s.builder.failure = some cause) : t.builder = s.builder := by
  cases e with
  | start k => cases h; simp [Builder.start, hs]
  | token k text => cases h; simp [Builder.token, hs]
  | finishNode => cases h; simp [Builder.finishNode, hs]
  | checkpoint => cases h; rfl
  | startAt i k =>
    obtain ⟨cp, -, rfl⟩ := Option.map_eq_some_iff.mp h
    simp [Builder.startAt, hs]

lemma failure_eq_none_of_step? (h : s.step? e = some t) (ht : t.builder.failure = none) :
    s.builder.failure = none := by
  cases hs : s.builder.failure with
  | none => rfl
  | some cause => rwa [builder_eq_of_failure h hs, hs] at ht

/-- A call leaves no failure behind exactly if there was none and the call is taken. -/
theorem step?_iff :
    s.step? e = some t ∧ t.builder.failure = none ↔ s.builder.failure = none ∧ Step s e t := by
  constructor
  · rintro ⟨h, ht⟩
    have hs := failure_eq_none_of_step? h ht
    refine ⟨hs, ?_⟩
    cases e with
    | start k =>
      cases h
      rw [Builder.start_of_ok hs]
      exact .start s k
    | token k text =>
      cases h
      cases ho : s.builder.opened with
      | nil => simp [Builder.token, hs, ho, Builder.fail] at ht
      | cons top rest =>
        have hne : s.builder.opened ≠ [] := by simp [ho]
        rw [Builder.token_of_ok hs hne]
        exact .token s k text hne
    | finishNode =>
      cases h
      cases ho : s.builder.opened with
      | nil => simp [Builder.finishNode, hs, ho, Builder.fail] at ht
      | cons top rest =>
        rw [Builder.finishNode_of_ok hs ho]
        exact .finishNode s top rest ho
    | checkpoint => cases h; exact .checkpoint s
    | startAt i k =>
      obtain ⟨cp, hcp, rfl⟩ := Option.map_eq_some_iff.mp h
      have hfits := Builder.fits_of_startAt ht
      rw [Builder.startAt_of_fits hs hfits]
      exact .startAt s i cp k hcp hfits
  · rintro ⟨hs, h⟩
    cases h with
    | start k => exact ⟨by rw [step?, Builder.start_of_ok hs], hs⟩
    | token k text inside => exact ⟨by rw [step?, Builder.token_of_ok hs inside], hs⟩
    | finishNode top rest opened => exact ⟨by rw [step?, Builder.finishNode_of_ok hs opened], hs⟩
    | checkpoint => exact ⟨rfl, hs⟩
    | startAt i cp k taken fits =>
      exact ⟨by rw [step?, taken, Option.map_some, Builder.startAt_of_fits hs fits], hs⟩

lemma run?_cons : s.run? (e :: events) = some u ↔ ∃ t, s.step? e = some t ∧ t.run? events = some u := by
  rw [run?, Option.bind_eq_some_iff]

/-- A session is without a failure exactly if it began without one and every call was taken. -/
theorem run?_iff :
    s.run? events = some t ∧ t.builder.failure = none ↔ s.builder.failure = none ∧ Runs s events t := by
  induction events generalizing s with
  | nil =>
    constructor
    · rintro ⟨h, ht⟩
      cases h
      exact ⟨ht, .nil _⟩
    · rintro ⟨hs, h⟩
      cases h
      exact ⟨rfl, hs⟩
  | cons e events ih =>
    constructor
    · rintro ⟨h, ht⟩
      obtain ⟨u, hu, hr⟩ := run?_cons.mp h
      obtain ⟨huf, htail⟩ := ih.mp ⟨hr, ht⟩
      obtain ⟨hs, hhead⟩ := step?_iff.mp ⟨hu, huf⟩
      exact ⟨hs, .cons hhead htail⟩
    · rintro ⟨hs, h⟩
      cases h with
      | cons head tail =>
        obtain ⟨hu, huf⟩ := step?_iff.mpr ⟨hs, head⟩
        obtain ⟨hr, ht⟩ := ih.mpr ⟨huf, tail⟩
        exact ⟨run?_cons.mpr ⟨_, hu, hr⟩, ht⟩

/-- A call that is refused changes neither the open nodes nor the elements. -/
lemma unchanged_of_failure (h : s.step? e = some t) (ht : t.builder.failure ≠ none) :
    t.builder.opened = s.builder.opened ∧ t.builder.elements = s.builder.elements := by
  cases hs : s.builder.failure with
  | some cause => rw [builder_eq_of_failure h hs]; exact ⟨rfl, rfl⟩
  | none =>
    cases e with
    | start k => cases h; simp [Builder.start, hs] at ht
    | token k text =>
      cases h
      cases ho : s.builder.opened <;> simp_all [Builder.token, Builder.fail]
    | finishNode =>
      cases h
      cases ho : s.builder.opened <;> simp_all [Builder.finishNode, Builder.fail]
    | checkpoint => cases h; exact absurd hs ht
    | startAt i k =>
      obtain ⟨cp, -, rfl⟩ := Option.map_eq_some_iff.mp h
      revert ht
      unfold Builder.startAt
      split_ifs <;> simp_all [Builder.fail]

end BuildSession

/-- The open nodes start one after the other, at positions that exist. -/
structure Builder.Ordered (b : Builder) : Prop where
  increasing : b.opened.Pairwise fun inner outer => outer.start ≤ inner.start
  bounded : ∀ node ∈ b.opened, node.start ≤ b.elements.size

namespace BuildSession

variable {s t u : BuildSession} {e : BuildEvent} {events : List BuildEvent}

lemma Step.ordered (h : Step s e t) (hs : s.builder.Ordered) : t.builder.Ordered := by
  cases h with
  | start k =>
    refine ⟨List.pairwise_cons.mpr ⟨hs.bounded, hs.increasing⟩, ?_⟩
    intro node hn
    rcases List.mem_cons.mp hn with rfl | hn
    · exact Nat.le_refl _
    · exact hs.bounded node hn
  | token k text inside =>
    refine ⟨hs.increasing, ?_⟩
    intro node hn
    simpa using Nat.le_succ_of_le (hs.bounded node hn)
  | finishNode top rest opened =>
    have hi := hs.increasing
    rw [opened, List.pairwise_cons] at hi
    refine ⟨hi.2, ?_⟩
    intro node hn
    have htop := hs.bounded top (by simp [opened])
    have hnode := hi.1 node hn
    simp only [Array.size_push, Array.size_extract]
    omega
  | checkpoint => exact hs
  | startAt i cp k taken fits =>
    -- Only the innermost open node is compared with the checkpoint: the others lie before it.
    have hle : ∀ node ∈ s.builder.opened, node.start ≤ cp.position := by
      intro node hn
      have hi := hs.increasing
      have hin := fits.inside
      cases ho : s.builder.opened with
      | nil => simp [ho] at hn
      | cons top rest =>
        rw [ho] at hn hi hin
        have htop : top.start ≤ cp.position := hin top rfl
        rcases List.mem_cons.mp hn with rfl | hn
        · exact htop
        · exact Nat.le_trans ((List.pairwise_cons.mp hi).1 node hn) htop
    refine ⟨List.pairwise_cons.mpr ⟨hle, hs.increasing⟩, ?_⟩
    intro node hn
    rcases List.mem_cons.mp hn with rfl | hn
    · exact fits.emitted
    · exact hs.bounded node hn

/-- Taken or refused, no call disturbs the order of the open nodes. -/
lemma ordered_of_step? (h : s.step? e = some t) (hs : s.builder.Ordered) : t.builder.Ordered := by
  by_cases ht : t.builder.failure = none
  · exact (step?_iff.mp ⟨h, ht⟩).2.ordered hs
  · obtain ⟨ho, he⟩ := unchanged_of_failure h ht
    exact ⟨ho ▸ hs.increasing, he ▸ ho ▸ hs.bounded⟩

theorem ordered_of_run? (h : s.run? events = some t) (hs : s.builder.Ordered) :
    t.builder.Ordered := by
  induction events generalizing s with
  | nil => cases h; exact hs
  | cons e events ih =>
    obtain ⟨u, hu, hr⟩ := run?_cons.mp h
    exact ih hr (ordered_of_step? hu hs)

end BuildSession
end LosslessTree
