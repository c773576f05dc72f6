import LosslessTree.Proofs.Calc.Cancellation
import LosslessTree.Proofs.Calc.Reading
import LosslessTree.Proofs.Decl.Cancellation
import LosslessTree.Proofs.Decl.Reading
import LosslessTree.Proofs.Language.Lexeme
import LosslessTree.Proofs.Markdown.Cancellation

/-! No text is lost, whatever it holds. Both parsers give every text a tree with all its lexemes, in
order. -/
namespace LosslessTree

/-- A tree with this symbol at its root, with these lexemes for tokens and with this text. -/
structure Represents {σ : Type} [Symbols σ] (top : σ) (lexemes : List (Lexeme σ)) (src : Bytes)
    (t : Tree) : Prop where
  isNode : t.isNode = true
  kind : t.kind = Symbols.kind top
  leaves : t.leaves = lexemes.map Lexeme.leaf
  text : t.text = src

lemma Lexeme.Covers.represents {σ : Type} [Symbols σ] {ls : List (Lexeme σ)} {ts : List Tree} {src : Bytes}
    (h : Covers ls ts []) (hsrc : ls.flatMap Lexeme.text = src) (top : σ) :
    Represents top ls src (.node (Symbols.kind top) ts) := by
  have hleaves : (Tree.node (Symbols.kind top) ts).leaves = ls.map leaf := by
    rw [Tree.leaves_node, ← List.append_nil (ts.flatMap _)]
    exact h
  refine ⟨rfl, rfl, hleaves, ?_⟩
  rw [Tree.text, hleaves, List.flatMap_map, ← hsrc]
  rfl

/-- Without a cancellation both parsers give every text a tree, whatever the cache holds. The tokens of
the tree are the lexemes of the text in order, so its text is the source byte for byte. -/
theorem parse_lossless (src : Bytes) (cache : Cache) :
    (∃ t, (Calc.parse src cache .never).result = .ok t ∧
      Represents Calc.Symbol.root (Calc.lex src) src t) ∧
    (∃ t, (Decl.parse src cache .never).result = .ok t ∧
      Represents Decl.Symbol.sourceFile (Decl.lex src) src t) := by
  obtain ⟨ts, hitems, hcalc⟩ := Calc.parse_items src cache
  obtain ⟨us, hsource, hdecl⟩ := Decl.parse_source src cache
  constructor
  · exact ⟨_, hcalc, hitems.covers.represents (Calc.flatMap_text_lex src) .root⟩
  · exact ⟨_, hdecl, hsource.covers.represents (Decl.flatMap_text_lex src) .sourceFile⟩

/-! Cancellation in every language: all or nothing, with the checks counted exactly. -/

/-- Let the first `n` checks pass and no later one. A parse of expressions or declarations is cancelled
exactly if there is a lexeme number `256 * (n + 1)`, and then it has asked for the tokens before this one
and for no other. A parse of Markdown, whatever blocks there are, is cancelled exactly if `n` is too small
for one check before every 256 spans and two around finding the blocks. Every other parse ends as it does
without checks. -/
theorem parse_cancelled_exactly (src : Bytes) (cache : Cache) (n : Nat) :
    ChecksLexemes "calc" (Calc.lex src) cache (Calc.parse src cache) n ∧
      ChecksLexemes "decl" (Decl.lex src) cache (Decl.parse src cache) n ∧
      (∀ tables, AllOrNothing "markdown" (2 + Markdown.checksBefore (Markdown.tokenize src).length)
        (Markdown.parse tables src cache) n) ∧
      ∀ document, AllOrNothing "markdown" (Markdown.checksBefore (Markdown.tokenize src).length)
        (Markdown.build src document cache) n :=
  ⟨Calc.checksLexemes src cache n, Decl.checksLexemes src cache n,
    fun tables => Markdown.parse_allOrNothing tables src cache n,
    fun document => Markdown.build_allOrNothing src document cache n⟩

end LosslessTree
