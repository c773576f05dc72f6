import LosslessTree.Language.Markdown.Document
import LosslessTree.Proofs.Tree.Builder
import Mathlib.Data.List.TakeWhile

/-! What the writer makes of an outline. Whatever the extents of the blocks are, it takes every span once
and in order, and a node that it opens gets at least one of them. As long as nobody cancels it, the
builder takes every call. -/
namespace LosslessTree

/-- Every node of the tree holds a token. -/
inductive Tree.Filled : Tree → Prop
  | token (k : Kind) (text : Bytes) : Filled (.token k text)
  | node {k : Kind} {cs : List Tree} (holds : (Tree.node k cs).leaves ≠ []) (below : ∀ c ∈ cs, Filled c) :
      Filled (.node k cs)

namespace Markdown

/-- A span as a token of a tree. -/
def Span.leaf (s : Span) : Leaf := ⟨s.symbol.kind, s.text⟩

def Span.tree (s : Span) : Tree := .token s.symbol.kind s.text

/-- The spans that begin before an offset, as tokens, and the spans after them. -/
def upTo (offset : Nat) (spans : List Span) : List Tree × List Span :=
  ((spans.takeWhile (·.start < offset)).map Span.tree, spans.dropWhile (·.start < offset))

namespace Outline

@[elab_as_elim]
theorem induction {motive : Outline → Prop}
    (node : ∀ symbol extent children, (∀ o ∈ children, motive o) → motive (.node symbol extent children)) :
    ∀ o, motive o
  | .node symbol extent children => node symbol extent children fun o _ => induction node o

mutual
/-- The trees that a block becomes, and the spans after them. Spans before its extent stay outside of its
node; without a span in it there is no node. -/
def trees (spans : List Span) : Outline → List Tree × List Span
  | .node (some symbol) (some e) children =>
    let before := upTo e.start spans
    if before.2.head?.any (·.start < e.stop) then
      let below := treesAll before.2 children
      let after := upTo e.stop below.2
      (before.1 ++ [.node symbol.kind (below.1 ++ after.1)], after.2)
    else before
  | .node _ _ children => treesAll spans children
def treesAll (spans : List Span) : List Outline → List Tree × List Span
  | [] => ([], spans)
  | o :: os =>
    let first := trees spans o
    let more := treesAll first.2 os
    (first.1 ++ more.1, more.2)
end

/-- A block without a node or an extent is passed over, and so are not the blocks below it. -/
lemma trees_passed (spans : List Span) {symbol : Option Symbol} {extent : Option Extent}
    (h : symbol = none ∨ extent = none) (children : List Outline) :
    trees spans (.node symbol extent children) = treesAll spans children := by
  rcases h with rfl | rfl
  · rw [trees]
    simp
  · cases symbol <;> simp [trees]

end Outline

/-- Out of the spans were made these trees: they hold the spans before the rest, in order, and each of
their nodes holds at least one. -/
structure Takes (spans : List Span) (made : List Tree × List Span) : Prop where
  covers : made.1.flatMap Tree.leaves ++ made.2.map Span.leaf = spans.map Span.leaf
  suffix : made.2 <:+ spans
  filled : ∀ t ∈ made.1, t.Filled

section
variable {spans rest : List Span} {ts us : List Tree} {offset : Nat}

lemma takes_self (spans : List Span) : Takes spans ([], spans) :=
  ⟨rfl, List.suffix_refl _, List.forall_mem_nil _⟩

lemma leaves_map_tree (spans : List Span) : (spans.map Span.tree).flatMap Tree.leaves = spans.map Span.leaf := by
  induction spans with
  | nil => rfl
  | cons s spans ih => simp [Span.tree, Span.leaf, ih]

lemma takes_upTo (offset : Nat) (spans : List Span) : Takes spans (upTo offset spans) := by
  refine ⟨?_, List.dropWhile_suffix _, ?_⟩
  · rw [upTo, leaves_map_tree, ← List.map_append, List.takeWhile_append_dropWhile]
  · intro t ht
    obtain ⟨s, -, rfl⟩ := List.mem_map.mp ht
    exact .token _ _

lemma Takes.trans {made : List Tree × List Span} (h : Takes spans (ts, rest)) (h' : Takes rest made) :
    Takes spans (ts ++ made.1, made.2) := by
  refine ⟨?_, h'.suffix.trans h.suffix, List.forall_mem_append.mpr ⟨h.filled, h'.filled⟩⟩
  have hcovers := h.covers
  dsimp only at hcovers ⊢
  rw [← hcovers, ← h'.covers, List.flatMap_append, List.append_assoc]

/-- A node may be put around trees that hold a span. -/
lemma Takes.node (h : Takes spans (ts, rest)) (hlt : rest.length < spans.length) (k : Kind) :
    Takes spans ([.node k ts], rest) := by
  have hcovers := h.covers
  dsimp only at hcovers
  have hleaves : (Tree.node k ts).leaves ≠ [] := by
    intro hnil
    rw [Tree.leaves_node] at hnil
    rw [hnil, List.nil_append] at hcovers
    have hlength := congrArg List.length hcovers
    rw [List.length_map, List.length_map] at hlength
    omega
  refine ⟨?_, h.suffix, List.forall_mem_singleton.mpr (.node hleaves h.filled)⟩
  rw [List.flatMap_singleton, Tree.leaves_node]
  exact hcovers

/-- If the first span begins before the offset, it is taken at the latest when all such spans are. -/
lemma length_upTo_lt (hfirst : spans.head?.any (·.start < offset)) (hrest : rest <:+ spans) :
    (upTo offset rest).2.length < spans.length := by
  have hle := (List.dropWhile_suffix (l := rest) (·.start < offset)).length_le
  by_cases heq : rest = spans
  · subst heq
    cases rest with
    | nil => simp at hfirst
    | cons s rest =>
      have hs : s.start < offset := by simpa using hfirst
      have hle := (List.dropWhile_suffix (l := rest) (·.start < offset)).length_le
      rw [upTo, List.dropWhile_cons_of_pos (by simpa using hs), List.length_cons]
      exact Nat.lt_succ_of_le hle
  · have hlt : rest.length < spans.length :=
      Nat.lt_of_le_of_ne hrest.length_le fun hlength => heq (hrest.eq_of_length hlength)
    exact Nat.lt_of_le_of_lt hle hlt

namespace Outline

lemma takes_treesAll {os : List Outline} (ih : ∀ o ∈ os, ∀ spans, Takes spans (trees spans o)) :
    ∀ spans, Takes spans (treesAll spans os) := by
  induction os with
  | nil => exact takes_self
  | cons o os ihs =>
    intro spans
    obtain ⟨ho, hos⟩ := List.forall_mem_cons.mp ih
    exact (ho spans).trans (ihs hos _)

/-- Whatever the extents are, no span is lost or moved and no node is left empty. -/
theorem takes_trees (o : Outline) : ∀ spans, Takes spans (trees spans o) := by
  induction o using Outline.induction with
  | node symbol extent children ih =>
    intro spans
    have hbelow := takes_treesAll ih
    by_cases hnode : symbol = none ∨ extent = none
    · rw [trees_passed spans hnode]
      exact hbelow spans
    · obtain ⟨hsymbol, hextent⟩ := not_or.mp hnode
      obtain ⟨symbol, rfl⟩ := Option.ne_none_iff_exists'.mp hsymbol
      obtain ⟨e, rfl⟩ := Option.ne_none_iff_exists'.mp hextent
      rw [trees]
      have hbefore := takes_upTo e.start spans
      split_ifs with hfirst
      · have hinner := (hbelow (upTo e.start spans).2).trans (takes_upTo e.stop _)
        have hlt := length_upTo_lt hfirst (hbelow (upTo e.start spans).2).suffix
        exact hbefore.trans (hinner.node hlt symbol.kind)
      · exact hbefore

end Outline
end

namespace Writer

def start (w : Writer) (k : Kind) : Writer := { w with builder := w.builder.start k }

def finish (w : Writer) : Writer := { w with builder := w.builder.finishNode }

/-- Moves the span before `ahead` into the tree. -/
def take (w : Writer) (s : Span) (ahead : List Span) : Writer :=
  { w with rest := ahead, builder := w.builder.token s.symbol.kind s.text, fed := w.fed + 1 }

/-- Closes the root and gives the outcome. -/
def outcome (w : Writer) : Parsed :=
  let (root, builder) := w.finish.builder.finish
  { result :=
      if w.cancelled then .error (.cancelled "markdown")
      else match root with
        | .error e => .error (.build "markdown" e)
        | .ok tree => .ok tree
    cache := builder.cache
    cancellation := w.cancellation }

/-- A writer over some spans with its root opened. -/
def root (spans : List Span) (cache : Cache) (c : Cancellation) : Writer :=
  ({ rest := spans, builder := { cache := cache }, cancellation := c } : Writer).start Symbol.document.kind

/-- The writer at the end of the text. -/
def written (src : Bytes) (document : Block) (cache : Cache) (c : Cancellation) : Writer :=
  ((root (tokenize src) cache c).block (Outline.ofBlock src document)).feedUntil src.length

lemma build_eq (src : Bytes) (document : Block) (cache : Cache) (c : Cancellation) :
    build src document cache c = (written src document cache c).outcome := rfl

lemma block_node (w : Writer) (symbol : Symbol) (e : Extent) (children : List Outline) :
    w.block (.node (some symbol) (some e) children) =
      if (w.feedUntil e.start).hasTokenBefore e.stop = true then
        ((((w.feedUntil e.start).start symbol.kind).blocks children).feedUntil e.stop).finish
      else w.feedUntil e.start := by
  rw [block]
  rfl

lemma block_passed (w : Writer) {symbol : Option Symbol} {extent : Option Extent}
    (h : symbol = none ∨ extent = none) (children : List Outline) :
    w.block (.node symbol extent children) = w.blocks children := by
  rcases h with rfl | rfl
  · rw [block]
    simp
  · cases symbol <;> simp [block]

variable {w v u : Writer} {ts us : List Tree} {spans : List Span}

/-- Nothing has failed and nobody cancels, and a node is open. -/
structure Live (w : Writer) : Prop where
  running : w.cancelled = false
  never : w.cancellation = .never
  accepted : w.builder.failure = none
  inside : w.builder.opened ≠ []

/-- From `w` to `v` these trees were added to the open node. -/
structure Adds (w : Writer) (ts : List Tree) (v : Writer) : Prop extends w.builder.Adds ts v.builder where
  running : v.cancelled = false
  never : v.cancellation = .never

lemma Live.adds_self (hw : w.Live) : w.Adds [] w :=
  ⟨Builder.adds_self hw.accepted, hw.running, hw.never⟩

lemma Adds.trans (h : w.Adds ts v) (h' : v.Adds us u) : w.Adds (ts ++ us) u :=
  ⟨h.toAdds.trans h'.toAdds, h'.running, h'.never⟩

lemma Adds.live (h : w.Adds ts v) (hw : w.Live) : v.Live :=
  ⟨h.running, h.never, h.accepted, h.opened ▸ hw.inside⟩

/-- The spans before an offset go into the open node. -/
lemma Live.feed (hw : w.Live) (offset : Nat) (h : w.rest = spans) :
    w.Adds (upTo offset spans).1 (w.feed offset spans) ∧ (w.feed offset spans).rest = (upTo offset spans).2 := by
  induction spans generalizing w with
  | nil => exact ⟨hw.adds_self, h⟩
  | cons s spans ih =>
    by_cases hs : s.start < offset
    · have htoken : w.Adds [s.tree] (w.take s spans) :=
        ⟨Builder.adds_token hw.accepted hw.inside _ _, hw.running, hw.never⟩
      obtain ⟨hadds, hrest⟩ := ih (htoken.live hw) rfl
      have hfeed : w.feed offset (s :: spans) = (w.take s spans).feed offset spans := by
        have hdue : (w.fed % checkInterval == 0 && Cancellation.isDue .never) = false := Bool.and_false _
        have hnext : (if w.fed % checkInterval == 0 then Cancellation.next .never else .never) = .never :=
          ite_self _
        rw [Writer.feed]
        simp only [take, hw.running, hw.never, hdue, hnext, Nat.not_le_of_lt hs]
        rfl
      rw [hfeed, upTo, List.takeWhile_cons_of_pos (by simpa using hs),
        List.dropWhile_cons_of_pos (by simpa using hs)]
      exact ⟨htoken.trans hadds, hrest⟩
    · have hfeed : w.feed offset (s :: spans) = w := by
        rw [Writer.feed, if_pos (by simp [Nat.le_of_not_lt hs])]
      rw [hfeed, upTo, List.takeWhile_cons_of_neg (by simpa using hs),
        List.dropWhile_cons_of_neg (by simpa using hs)]
      exact ⟨hw.adds_self, h⟩

lemma Live.feedUntil (hw : w.Live) (offset : Nat) :
    w.Adds (upTo offset w.rest).1 (w.feedUntil offset) ∧ (w.feedUntil offset).rest = (upTo offset w.rest).2 :=
  hw.feed offset rfl

lemma Live.start (hw : w.Live) (k : Kind) : (w.start k).Live := by
  have hstart := Builder.start_of_ok hw.accepted k
  refine ⟨hw.running, hw.never, ?_, ?_⟩
  · rw [Writer.start, hstart]
    exact hw.accepted
  · rw [Writer.start, hstart]
    exact List.cons_ne_nil _ _

/-- A node opened, filled and closed. -/
lemma Adds.node {k : Kind} (hw : w.Live) (h : (w.start k).Adds ts v) : w.Adds [.node k ts] v.finish :=
  ⟨h.toAdds.node hw.accepted, h.running, h.never⟩

lemma live_root (spans : List Span) (cache : Cache) : (root spans cache .never).Live :=
  ⟨rfl, rfl, rfl, List.cons_ne_nil _ _⟩

/-- Closing the root over the trees that were added gives the tree. -/
lemma Adds.outcome {cache : Cache} (h : (root spans cache .never).Adds ts v) :
    v.outcome = ⟨.ok (.node Symbol.document.kind ts),
      (cache.serve (Tree.node Symbol.document.kind ts).subtrees).2, .never⟩ := by
  have hroot : Builder.Adds { cache := cache } [.node Symbol.document.kind ts] v.finish.builder :=
    Builder.Adds.node rfl h.toAdds
  simp only [Writer.outcome, hroot.finish, h.running, h.never]
  rfl

/-- The writer of some blocks adds what they become. -/
def Writes (o : Outline) : Prop :=
  ∀ w : Writer, w.Live → w.Adds (o.trees w.rest).1 (w.block o) ∧ (w.block o).rest = (o.trees w.rest).2

lemma Live.blocks {os : List Outline} (ih : ∀ o ∈ os, Writes o) :
    ∀ w : Writer, w.Live → w.Adds (Outline.treesAll w.rest os).1 (w.blocks os) ∧
      (w.blocks os).rest = (Outline.treesAll w.rest os).2 := by
  induction os with
  | nil =>
    intro w hw
    exact ⟨hw.adds_self, rfl⟩
  | cons o os ihs =>
    intro w hw
    obtain ⟨ho, hos⟩ := List.forall_mem_cons.mp ih
    obtain ⟨hfirst, hrest⟩ := ho w hw
    obtain ⟨hmore, hrest'⟩ := ihs hos (w.block o) (hfirst.live hw)
    rw [hrest] at hmore hrest'
    exact ⟨hfirst.trans hmore, hrest'⟩

/-- Every call that the writer makes is taken, and what it adds depends on the spans alone. -/
theorem writes (o : Outline) : Writes o := by
  induction o using Outline.induction with
  | node symbol extent children ih =>
    intro w hw
    have hbelow := Live.blocks ih
    by_cases hnode : symbol = none ∨ extent = none
    · rw [Outline.trees_passed w.rest hnode, block_passed w hnode]
      exact hbelow w hw
    · obtain ⟨hsymbol, hextent⟩ := not_or.mp hnode
      obtain ⟨symbol, rfl⟩ := Option.ne_none_iff_exists'.mp hsymbol
      obtain ⟨e, rfl⟩ := Option.ne_none_iff_exists'.mp hextent
      obtain ⟨hbefore, hrest⟩ := hw.feedUntil e.start
      have hlive := hbefore.live hw
      rw [block_node, Outline.trees, ← hrest]
      by_cases hfirst : (w.feedUntil e.start).hasTokenBefore e.stop = true
      · have hstart := hlive.start symbol.kind
        obtain ⟨hchildren, hrest'⟩ := hbelow _ hstart
        obtain ⟨hafter, hrest''⟩ := (hchildren.live hstart).feedUntil e.stop
        have hnode := (hchildren.trans hafter).node hlive
        rw [hrest'] at hnode hrest''
        have hany : (w.feedUntil e.start).rest.head?.any (fun s => s.start < e.stop) = true := hfirst
        simp only [if_pos hfirst, if_pos hany]
        exact ⟨hbefore.trans hnode, hrest''⟩
      · have hany : ¬ (w.feedUntil e.start).rest.head?.any (fun s => s.start < e.stop) = true := hfirst
        simp only [if_neg hfirst, if_neg hany]
        exact ⟨hbefore, hrest⟩

end Writer
end Markdown
end LosslessTree
