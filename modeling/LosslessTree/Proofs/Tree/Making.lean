import LosslessTree.Proofs.Tree.Kept

/-! All elements that can be made. Whatever way an element was made, from elements that were made before, and by an
interner or without one, all that is written in it is exact. So equality is structural, and an interned node differs
from a plain one only if it was made over empty children. -/
namespace LosslessTree

open Element

/-- Something that can be made. -/
inductive Product where
  | element (e : Element)
  | interner (c : Interner)
  | assembler (b : Assembler)

/-- All that can be made with one fingerprint. An interner may have other users, so a builder can find any content in
its interner when it makes a call. With `strict`, no interner is asked for a node over an empty child. -/
inductive Made (f : Fingerprint) (strict : Bool) : Product → Prop
  | empty : Made f strict (.element .empty)
  | token (k : Kind) (s : Bytes) : Made f strict (.element (.ofToken f k s))
  | node (k : Kind) {es : List Element} (parts : ∀ e ∈ es, Made f strict (.element e)) :
      Made f strict (.element (.ofFilled f k es))
  | child {e c : Element} (parent : Made f strict (.element e)) (mem : c ∈ e.children) : Made f strict (.element c)
  | replaceChild {h : UInt64} {k : Kind} {cs : List Element} {offsets : List Nat} {n : Nat} {index : Int}
      {e made : Element} (parent : Made f strict (.element (.node h k cs offsets n)))
      (part : Made f strict (.element e)) (ok : replaceChild f k cs index e = .ok made) :
      Made f strict (.element made)
  | splice {h : UInt64} {k : Kind} {cs : List Element} {offsets : List Nat} {n : Nat} {start stop : Int}
      {es : List Element} {made : Element} (parent : Made f strict (.element (.node h k cs offsets n)))
      (parts : ∀ e ∈ es, Made f strict (.element e)) (ok : splice f k cs start stop es = .ok made) :
      Made f strict (.element made)
  | insertChild {h : UInt64} {k : Kind} {cs : List Element} {offsets : List Nat} {n : Nat} {index : Int}
      {e made : Element} (parent : Made f strict (.element (.node h k cs offsets n)))
      (part : Made f strict (.element e)) (ok : insertChild f k cs index e = .ok made) :
      Made f strict (.element made)
  | removeChild {h : UInt64} {k : Kind} {cs : List Element} {offsets : List Nat} {n : Nat} {index : Int}
      {made : Element} (parent : Made f strict (.element (.node h k cs offsets n)))
      (ok : removeChild f k cs index = .ok made) : Made f strict (.element made)
  | interner : Made f strict (.interner {})
  | tokenAnswer {c : Interner} (k : Kind) (s : Bytes) (asked : Made f strict (.interner c)) :
      Made f strict (.element (c.token f k s).1)
  | tokenAfter {c : Interner} (k : Kind) (s : Bytes) (asked : Made f strict (.interner c)) :
      Made f strict (.interner (c.token f k s).2)
  | nodeAnswer {c : Interner} (identity : Identity) (k : Kind) {es : List Element}
      (asked : Made f strict (.interner c)) (parts : ∀ e ∈ es, Made f strict (.element e))
      (filled : strict = true → ∀ e ∈ es, e.isFilled = true) : Made f strict (.element (c.node f identity k es).1)
  | nodeAfter {c : Interner} (identity : Identity) (k : Kind) {es : List Element}
      (asked : Made f strict (.interner c)) (parts : ∀ e ∈ es, Made f strict (.element e))
      (filled : strict = true → ∀ e ∈ es, e.isFilled = true) : Made f strict (.interner (c.node f identity k es).2)
  | assembler {c : Interner} (shared : Made f strict (.interner c)) : Made f strict (.assembler { interner := c })
  | meanwhile {b : Assembler} {c : Interner} (session : Made f strict (.assembler b))
      (shared : Made f strict (.interner c)) : Made f strict (.assembler { b with interner := c })
  | released {b : Assembler} (session : Made f strict (.assembler b)) : Made f strict (.interner b.interner)
  | start {b : Assembler} (k : Kind) (session : Made f strict (.assembler b)) : Made f strict (.assembler (b.start k))
  | startAt {b : Assembler} (cp : Checkpoint) (k : Kind) (session : Made f strict (.assembler b)) :
      Made f strict (.assembler (b.startAt cp k))
  | add {b : Assembler} (k : Kind) (s : Bytes) (session : Made f strict (.assembler b)) :
      Made f strict (.assembler (b.token f k s))
  | finishNode {b : Assembler} (identity : Identity) (session : Made f strict (.assembler b)) :
      Made f strict (.assembler (b.finishNode f identity))
  | root {b : Assembler} {e : Element} (session : Made f strict (.assembler b)) (ok : b.root = .ok e) :
      Made f strict (.element e)
  | finished {b : Assembler} (session : Made f strict (.assembler b)) : Made f strict (.assembler b.finish.2)

variable {f : Fingerprint} {strict : Bool} {k : Kind} {s : Bytes} {es : List Element} {identity : Identity}

namespace Interner

/-- All that is written in the entries is exact. -/
structure Sound (f : Fingerprint) (strict : Bool) (c : Interner) : Prop where
  tokens : ∀ entry ∈ c.tokens, entry.2.Exact f strict
  nodes : ∀ entry ∈ c.nodes, entry.2.Exact f strict

variable {c : Interner}

lemma sound_empty : Sound f strict {} := ⟨by simp, by simp⟩

/-- A request for a token is answered by the token as it is made without an interner. -/
lemma Sound.token_fst (hc : c.Sound f strict) (k : Kind) (s : Bytes) : (c.token f k s).1 = .ofToken f k s := by
  simp only [token]
  split
  · next h e hfind =>
    have hmet := List.find?_some hfind
    rw [Bool.and_eq_true] at hmet
    exact (hc.tokens _ (List.mem_of_find?_eq_some hfind)).eq_of_isTokenOf hmet.2
  · rfl

lemma Sound.token (hc : c.Sound f strict) (k : Kind) (s : Bytes) : (c.token f k s).2.Sound f strict := by
  simp only [Interner.token]
  split
  · exact ⟨hc.tokens, hc.nodes⟩
  · exact ⟨List.forall_mem_cons.mpr ⟨.token, hc.tokens⟩, hc.nodes⟩

/-- A request for a node is answered by the node over just these children. -/
lemma Sound.node_fst (hc : c.Sound f strict) (identity : Identity) (k : Kind)
    (hes : ∀ e ∈ es, e.Exact f strict) : (c.node f identity k es).1 = .ofChildren f k es := by
  simp only [node]
  split
  · next h e hfind =>
    have hmet := List.find?_some hfind
    rw [Bool.and_eq_true] at hmet
    exact (hc.nodes _ (List.mem_of_find?_eq_some hfind)).eq_of_isNodeOver hes hmet.2
  · rfl

lemma Sound.node (hc : c.Sound f strict) (identity : Identity) (k : Kind) (hes : Fit f strict es) :
    (c.node f identity k es).2.Sound f strict := by
  simp only [Interner.node]
  split
  · exact ⟨hc.tokens, hc.nodes⟩
  · exact ⟨hc.tokens, List.forall_mem_cons.mpr ⟨hes.ofChildren k, hc.nodes⟩⟩

end Interner

namespace Assembler

/-- All that has been built is exact, and so is what the interner holds. -/
structure Sound (f : Fingerprint) (strict : Bool) (b : Assembler) : Prop where
  interner : b.interner.Sound f strict
  elements : Fit f strict b.elements.toList

variable {b : Assembler}

/-- A call that adds nothing keeps what was built. -/
lemma Sound.of_eq (hb : b.Sound f strict) {d : Assembler} (hinterner : d.interner = b.interner)
    (helements : d.elements = b.elements) : d.Sound f strict := ⟨hinterner ▸ hb.interner, helements ▸ hb.elements⟩

lemma Sound.start (hb : b.Sound f strict) (k : Kind) : (b.start k).Sound f strict := by
  unfold Assembler.start
  split_ifs <;> exact hb.of_eq rfl rfl

lemma Sound.startAt (hb : b.Sound f strict) (cp : Checkpoint) (k : Kind) : (b.startAt cp k).Sound f strict := by
  unfold Assembler.startAt
  split_ifs <;> exact hb.of_eq rfl rfl

lemma Sound.token (hb : b.Sound f strict) (k : Kind) (s : Bytes) : (b.token f k s).Sound f strict := by
  unfold Assembler.token
  split_ifs
  · exact hb
  · split
    · exact hb.of_eq rfl rfl
    · refine ⟨hb.interner.token k s, ?_⟩
      have hnew : Fit f strict [(b.interner.token f k s).1] := by
        rw [hb.interner.token_fst]
        exact .of_isFilled (List.forall_mem_singleton.mpr .token) (List.forall_mem_singleton.mpr rfl)
      simpa using hb.elements.append hnew

lemma Sound.finishNode (hb : b.Sound f strict) (identity : Identity) : (b.finishNode f identity).Sound f strict := by
  unfold Assembler.finishNode
  split_ifs
  · exact hb
  · split
    · exact hb.of_eq rfl rfl
    · next top rest _ =>
      have hbefore : Fit f strict (b.elements.extract 0 top.start).toList := hb.elements.of_subset (by
        simpa using List.take_subset top.start b.elements.toList)
      have hafter : Fit f strict (b.elements.extract top.start b.elements.size).toList := hb.elements.of_subset (by
        simpa using List.Subset.trans (List.take_subset (b.elements.size - top.start) _)
          (List.drop_subset top.start b.elements.toList))
      refine ⟨hb.interner.node identity top.kind hafter, ?_⟩
      have hnew : Fit f strict
          [(b.interner.node f identity top.kind (b.elements.extract top.start b.elements.size).toList).1] := by
        rw [hb.interner.node_fst identity top.kind hafter.exact]
        exact .of_isFilled (List.forall_mem_singleton.mpr (hafter.ofChildren top.kind))
          (List.forall_mem_singleton.mpr rfl)
      simpa using hbefore.append hnew

lemma Sound.root (hb : b.Sound f strict) {e : Element} (hroot : b.root = .ok e) : e.Exact f strict := by
  unfold Assembler.root at hroot
  split at hroot
  · cases hroot
  · split_ifs at hroot
    split at hroot
    · cases hroot
    · next made helements =>
      cases hroot
      exact hb.elements.exact _ (helements ▸ List.mem_singleton_self _)
    · cases hroot

end Assembler

/-- All that is written in the elements of a product is exact. -/
def Product.Sound (f : Fingerprint) (strict : Bool) : Product → Prop
  | .element e => e.Exact f strict
  | .interner c => c.Sound f strict
  | .assembler b => b.Sound f strict

/-- Every call makes sound products from sound ones. -/
theorem Made.sound {p : Product} (h : Made f strict p) : p.Sound f strict := by
  induction h with
  | empty => exact .empty
  | token k s => exact .token
  | node k _ parts => exact .ofFilled k parts
  | child _ mem parent => exact parent.fit.exact _ mem
  | replaceChild _ _ ok parent part => exact parent.replaceChild part ok
  | splice _ _ ok parent parts => exact parent.splice parts ok
  | insertChild _ _ ok parent part => exact parent.splice (List.forall_mem_singleton.mpr part) ok
  | removeChild _ ok parent => exact parent.splice (List.forall_mem_nil _) (removeChild_eq_ok ok)
  | interner => exact Interner.sound_empty
  | tokenAnswer k s _ asked => exact asked.token_fst k s ▸ Exact.token
  | tokenAfter k s _ asked => exact asked.token k s
  | nodeAnswer identity k _ _ filled asked parts => exact asked.node_fst identity k parts ▸ Fit.ofChildren ⟨parts, filled⟩ k
  | nodeAfter identity k _ _ filled asked parts => exact asked.node identity k ⟨parts, filled⟩
  | assembler _ shared => exact ⟨shared, by simp, by simp⟩
  | meanwhile _ _ session shared => exact ⟨shared, session.elements⟩
  | released _ session => exact session.interner
  | start k _ session => exact session.start k
  | startAt cp k _ session => exact session.startAt cp k
  | add k s _ session => exact session.token k s
  | finishNode identity _ session => exact session.finishNode identity
  | root _ ok session => exact session.root ok
  | finished _ session => exact ⟨session.interner, by simp [Assembler.finish], by simp [Assembler.finish]⟩

/-- Elements that were made in whatever way are equal if and only if they are of one structure, under any fingerprint
and whatever is known of their identity; then their fingerprints and lengths agree, so looking at these first never
tells equal elements apart. -/
theorem equal_iff_alike {a b : Element} (identity : Identity) (ha : Made f strict (.element a))
    (hb : Made f strict (.element b)) :
    (a.equal identity b = true ↔ a.Alike b) ∧ (a.Alike b → a.hash = b.hash ∧ a.length = b.length) ∧
      (a.isNode = true → b.isToken = true → a.equal identity b = false) := by
  have hiff : a.equal identity b = true ↔ a.Alike b := Exact.equal_iff ha.sound hb.sound
  refine ⟨hiff, fun halike => ?_, fun hnode htoken => ?_⟩
  · rw [Exact.eq_of_alike ha.sound hb.sound halike]
    exact ⟨rfl, rfl⟩
  · rw [← Bool.not_eq_true, hiff]
    intro halike
    cases halike with
    | empty => cases hnode
    | token => cases hnode
    | node => cases htoken

/-- Under a fingerprint that tells nothing, an interned node over an interned token equals a plain one, and tokens
that differ are told apart. -/
theorem equal_iff_alike_collision :
    let f : Fingerprint := ⟨fun _ _ => 0, fun _ _ => 0⟩
    let c := (Interner.token f {} 2 [0x61]).2
    let interned := (c.node f .unknown 1 [(c.token f 2 [0x61]).1]).1
    let plain := Element.ofFilled f 1 [.empty, .ofToken f 2 [0x61]]
    let other := Element.ofFilled f 1 [.ofToken f 2 [0x62]]
    Made f true (.element interned) ∧ Made f true (.element plain) ∧ Made f true (.element other) ∧
      interned.equal .unknown plain = true ∧ interned.hash = plain.hash ∧
      plain.hash = other.hash ∧ plain.equal .unknown other = false := by
  intro f c interned plain other
  have htoken : Made f true (.element (.ofToken f 2 [0x61])) := .token 2 [0x61]
  have hc : Made f true (.interner c) := .tokenAfter 2 [0x61] .interner
  have hinterned : Made f true (.element interned) :=
    .nodeAnswer .unknown 1 hc (List.forall_mem_singleton.mpr (.tokenAnswer 2 [0x61] hc))
      fun _ => List.forall_mem_singleton.mpr rfl
  have hplain : Made f true (.element plain) :=
    .node 1 (List.forall_mem_cons.mpr ⟨.empty, List.forall_mem_singleton.mpr htoken⟩)
  have hother : Made f true (.element other) := .node 1 (List.forall_mem_singleton.mpr (.token 2 [0x62]))
  have hsame : interned.Alike plain := .refl _
  obtain ⟨hequal, hhash, -⟩ := equal_iff_alike .unknown hinterned hplain
  refine ⟨hinterned, hplain, hother, hequal.mpr hsame, (hhash hsame).1, rfl, ?_⟩
  rw [← Bool.not_eq_true, (equal_iff_alike .unknown hplain hother).1]
  intro halike
  cases (alike_node_iff.mp halike).2 with
  | cons hhead _ => cases hhead

end LosslessTree
