import LosslessTree.Proofs.Markdown.Extent
import LosslessTree.Proofs.Markdown.Token
import LosslessTree.Proofs.Markdown.Writer

/-! Markdown trees lose nothing, whatever block structure is found in the text. -/
namespace LosslessTree.Markdown

/-- The trees below the root: those of the blocks, and the spans after the last block. -/
def Block.trees (src : Bytes) (document : Block) : List Tree :=
  let blocks := (Outline.ofBlock src document).trees (tokenize src)
  blocks.1 ++ (upTo src.length blocks.2).1

variable {src : Bytes} {document : Block}

lemma upTo_length_tokenize {rest : List Span} (h : rest <:+ tokenize src) :
    (upTo src.length rest).2 = [] := by
  have hbefore : ∀ s ∈ rest, decide (s.start < src.length) = true := by
    intro s hs
    have hlt := (follow_tokenize src).start_lt s (h.subset hs)
    exact decide_eq_true hlt
  exact List.dropWhile_eq_nil_iff.mpr hbefore

/-- All spans of the text end up below the root. -/
lemma takes_block (src : Bytes) (document : Block) : Takes (tokenize src) (document.trees src, []) := by
  have hblocks := (Outline.ofBlock src document).takes_trees (tokenize src)
  have hall := hblocks.trans (takes_upTo src.length _)
  rwa [upTo_length_tokenize hblocks.suffix] at hall

/-- At the end of the text all trees are below the root, and nothing is left to feed. -/
lemma adds_written (src : Bytes) (document : Block) (cache : Cache) :
    (Writer.root (tokenize src) cache .never).Adds (document.trees src)
        (Writer.written src document cache .never) ∧
      (Writer.written src document cache .never).rest = [] := by
  have hstart := Writer.live_root (tokenize src) cache
  obtain ⟨hblocks, hrest⟩ := Writer.writes (Outline.ofBlock src document) _ hstart
  obtain ⟨hlast, hend⟩ := (hblocks.live hstart).feedUntil src.length
  have hadds := hblocks.trans hlast
  rw [hrest] at hadds hend
  refine ⟨hadds, hend.trans ?_⟩
  exact upTo_length_tokenize ((Outline.ofBlock src document).takes_trees (tokenize src)).suffix

/-- Without a cancellation the tree is a root over what the blocks become, and the cache was asked for
everything in it. -/
theorem build_never (src : Bytes) (document : Block) (cache : Cache) :
    build src document cache .never =
      ⟨.ok (.node Symbol.document.kind (document.trees src)),
        (cache.serve (Tree.node Symbol.document.kind (document.trees src)).subtrees).2, .never⟩ :=
  (adds_written src document cache).1.outcome

/-- Whatever blocks there are, in whichever order and however they overlap, if only their segments lie in
the text: measuring reads nothing outside of the text and turns no range around; every span is there to
be read; and the tree is a root whose tokens are the spans of the text in order, with a token in every
node below it. -/
theorem build_lossless (src : Bytes) (document : Block) (cache : Cache) (h : document.Within src.length) :
    Outline.measure? src document = some (Outline.ofBlock src document) ∧
      (Outline.ofBlock src document).Within src.length ∧
      (∀ s ∈ tokenize src, s.range.slice? src = some s.text) ∧
      ∃ ts, (build src document cache .never).result = .ok (.node Symbol.document.kind ts) ∧
        (Tree.node Symbol.document.kind ts).leaves = (tokenize src).map Span.leaf ∧
        (Tree.node Symbol.document.kind ts).text = src ∧ ∀ t ∈ ts, t.Filled := by
  obtain ⟨hmeasure, hextents⟩ := Outline.measure?_eq h
  have htakes := takes_block src document
  have hleaves : (Tree.node Symbol.document.kind (document.trees src)).leaves =
      (tokenize src).map Span.leaf := by
    have hcovers := htakes.covers
    dsimp only at hcovers
    rw [List.map_nil, List.append_nil] at hcovers
    rw [Tree.leaves_node, hcovers]
  have htext : (Tree.node Symbol.document.kind (document.trees src)).text = src := by
    rw [Tree.text, hleaves, List.flatMap_map]
    exact text_tokenize src
  exact ⟨hmeasure, hextents, fun s hs => slice?_of_mem_tokenize hs, document.trees src,
    congrArg Parsed.result (build_never src document cache), hleaves, htext, htakes.filled⟩

/-- A paragraph that comes before the one ahead of it, a list around part of a line, and a code block
without text. -/
def scrambled : Block :=
  .container .document [.leaf .paragraph [⟨3, 5⟩], .container .list [.leaf .paragraph [⟨0, 1⟩, ⟨4, 4⟩]],
    .leaf .codeBlock [⟨2, 2⟩]]

theorem build_lossless_scrambled :
    scrambled.Within 5 ∧
      Outline.measure? "a\n\n# " scrambled = some (Outline.ofBlock "a\n\n# " scrambled) ∧
      ∃ ts, (build "a\n\n# " scrambled {} .never).result = .ok (.node Symbol.document.kind ts) ∧
        (Tree.node Symbol.document.kind ts).text = "a\n\n# " ∧ ∀ t ∈ ts, t.Filled := by
  have hlate : (Block.leaf .paragraph [⟨3, 5⟩]).Within 5 := .leaf (by simp [Segment.within_iff])
  have hearly : (Block.leaf .paragraph [⟨0, 1⟩, ⟨4, 4⟩]).Within 5 := .leaf (by simp [Segment.within_iff])
  have hempty : (Block.leaf .codeBlock [⟨2, 2⟩]).Within 5 := .leaf (by simp [Segment.within_iff])
  have hwithin : scrambled.Within 5 := .container (by simp [hlate, hearly, hempty, Block.Within.container])
  obtain ⟨hmeasure, -, -, ts, hbuild, -, htext, hfilled⟩ := build_lossless "a\n\n# " scrambled {} hwithin
  exact ⟨hwithin, hmeasure, ts, hbuild, htext, hfilled⟩

/-- The parser finds the blocks and builds over them. -/
lemma parse_eq_build (tables : Bool) (src : Bytes) (cache : Cache) :
    parse tables src cache .never = build src (blocks src tables) cache .never := rfl

end LosslessTree.Markdown
