import LosslessTree.Proofs.Edit.Reparse
import LosslessTree.Proofs.Language.Lexeme
import Mathlib.Logic.Relation

/-! Histories of edits. Each accepted call keeps the tokens true to their kinds, so any number of them
does, one after the other, from the tree of a text on. -/
namespace LosslessTree.TextEdit
open LosslessTree.Tree

variable {root root' before after : Tree} {e : TextEdit} {edits : List TextEdit}
  {relex? : Option (Bytes → Option Kind)} {relex : Bytes → Option Kind}

/-- An accepted edit is made in a token. -/
lemma applies_of_apply (hroot : root.isNode = true) (h : apply root e relex? = .ok root') :
    Applies root e relex? root' ∧ root'.isNode = true := by
  have hfits : Fits root.length e := by
    cases hvalid : validate [e] root.length with
    | error p =>
      unfold apply at h
      rw [hvalid] at h
      cases h
    | ok _ => exact validate_eq_ok_iff.mp hvalid e (List.mem_singleton_self e)
  rcases apply_cases relex? hroot hfits with ⟨t, ht, happ⟩ | ⟨p, hp, -⟩
  · obtain rfl := Except.ok.inj (ht.symm.trans h)
    exact ⟨happ, (happ.text_eq hroot hfits.2.1).2⟩
  · rw [hp] at h
    cases h

/-- An accepted batch is made edit by edit. -/
lemma made_of_applyAll (hroot : root.isNode = true) (h : applyAll root edits relex? = .ok root') :
    ∃ sorted, Made relex? root sorted root' ∧ root'.isNode = true := by
  unfold applyAll at h
  rw [Tree.length_eq_length_text] at h
  cases hprepare : prepare edits root.text.length with
  | error p =>
    rw [hprepare] at h
    cases h
  | ok sorted =>
    rw [hprepare] at h
    rcases applySorted_cases relex? hroot (prepare_eq_ok hprepare) with ⟨t, ht, hmade, hnode, -⟩ | ⟨p, hp, -⟩
    · obtain rfl := Except.ok.inj (ht.symm.trans h)
      exact ⟨sorted, hmade, hnode⟩
    · cases hp.symm.trans h

/-- One accepted call, of an edit or of a batch of edits. -/
inductive Accepted (relex : Bytes → Option Kind) (before after : Tree) : Prop
  | edit (e : TextEdit) (done : apply before e (some relex) = .ok after)
  | batch (edits : List TextEdit) (done : applyAll before edits (some relex) = .ok after)

/-- A node all of whose tokens are by themselves lexed as what they are. -/
structure Relexes (relex : Bytes → Option Kind) (root : Tree) : Prop where
  isNode : root.isNode = true
  tokens : ∀ l ∈ root.leaves, relex l.text = some l.kind

lemma Accepted.relexes (h : Accepted relex before after) (hbefore : Relexes relex before) :
    Relexes relex after := by
  have hstep : after.isNode = true ∧ ∀ l ∈ after.leaves, l ∈ before.leaves ∨ relex l.text = some l.kind := by
    cases h with
    | edit e done =>
      obtain ⟨happ, hnode⟩ := applies_of_apply hbefore.isNode done
      exact ⟨hnode, happ.leaves hbefore.isNode⟩
    | batch edits done =>
      obtain ⟨sorted, hmade, hnode⟩ := made_of_applyAll hbefore.isNode done
      exact ⟨hnode, hmade.leaves⟩
  exact ⟨hstep.1, fun l hl => (hstep.2 l hl).elim (hbefore.tokens l) id⟩

lemma relexes_of_history (h : Relation.ReflTransGen (Accepted relex) before after)
    (hbefore : Relexes relex before) : Relexes relex after := by
  induction h with
  | refl => exact hbefore
  | tail _ step ih => exact step.relexes ih

/-- The tree of a text whose lexemes are lexed again as what they are. -/
lemma relexes_of_represents {σ : Type} [Symbols σ] {top : σ} {ls : List (Lexeme σ)} {src : Bytes}
    (h : Represents top ls src root) (hls : ∀ l ∈ ls, relex l.text = some (Symbols.kind l.symbol)) :
    Relexes relex root := by
  refine ⟨h.isNode, ?_⟩
  rw [h.leaves]
  exact List.forall_mem_map.mpr hls

/-- The languages whose tokens are lexed again after an edit. -/
def relexed : List Language := [.ofCalc, .ofDecl]

lemma relex?_nil {language : Language} (h : language ∈ relexed) : language.relex? [] = none := by
  rcases List.mem_pair.mp h with rfl | rfl
  · simp [Language.ofCalc, Calc.relex?, Calc.lex, Utf8.decode, Lexeme.cut]
  · simp [Language.ofDecl, Decl.relex?, Decl.lex, Utf8.decode, Lexeme.cut]

/-- Whatever was edited since it was parsed, by any number of accepted calls, every token of the tree is by
itself lexed as the one token that it is, and none is empty. -/
theorem edited_leaves_relex {language : Language} (hlanguage : language ∈ relexed) (src : Bytes) (cache : Cache) :
    ∃ before, (language.parse src cache .never).result = .ok before ∧
      ∀ after, Relation.ReflTransGen (Accepted language.relex?) before after →
        ∀ l ∈ after.leaves, language.relex? l.text = some l.kind ∧ l.text ≠ [] := by
  have hparse : ∃ before, (language.parse src cache .never).result = .ok before ∧
      Relexes language.relex? before := by
    obtain ⟨⟨t, ht, hcalc⟩, u, hu, hdecl⟩ := parse_lossless src cache
    rcases List.mem_pair.mp hlanguage with rfl | rfl
    · refine ⟨t, ht, relexes_of_represents hcalc fun l hl => ?_⟩
      exact congrArg (Option.map Calc.Symbol.kind) (Calc.relex?_of_mem_lex hl)
    · refine ⟨u, hu, relexes_of_represents hdecl fun l hl => ?_⟩
      exact congrArg (Option.map Decl.Symbol.kind) (Decl.relex?_of_mem_lex hl)
  obtain ⟨before, hresult, hbefore⟩ := hparse
  refine ⟨before, hresult, fun after hafter l hl => ?_⟩
  have hkind := (relexes_of_history hafter hbefore).tokens l hl
  refine ⟨hkind, fun hnil => ?_⟩
  rw [hnil, relex?_nil hlanguage] at hkind
  cases hkind

/-- Both numbers of a sum get longer, and the operator is taken away. The numbers are still numbers, though
side by side they spell a single one. -/
theorem edited_leaves_relex_deletion : ∃ before after,
    (Calc.parse "1+2" {} .never).result = .ok before ∧
    Relation.ReflTransGen (Accepted Language.ofCalc.relex?) before after ∧
    after.leaves = [⟨Calc.Symbol.number.kind, "1."⟩, ⟨Calc.Symbol.number.kind, "24"⟩] ∧
    ∀ l ∈ after.leaves, Language.ofCalc.relex? l.text = some l.kind ∧ l.text ≠ [] := by
  obtain ⟨before, hparse, hkinds⟩ := edited_leaves_relex (.head _ : Language.ofCalc ∈ relexed) "1+2" {}
  obtain rfl := Except.ok.inj ((parse_onePlus_two {}).symm.trans hparse)
  let tree (tokens : List Tree) : Tree := .node Calc.Symbol.root.kind [.node Calc.Symbol.binary.kind tokens]
  let first : Tree := .token Calc.Symbol.number.kind "1."
  let plus : Tree := .token Calc.Symbol.plus.kind "+"
  let second : Tree := .token Calc.Symbol.number.kind "24"
  have hsecond : Accepted Language.ofCalc.relex? (onePlus "2") (onePlus "24") :=
    .edit ⟨⟨3, 3⟩, "4"⟩ (by decide +kernel)
  have hfirst : Accepted Language.ofCalc.relex? (onePlus "24") (tree [first, plus, second]) :=
    .edit ⟨⟨0, 1⟩, "1."⟩ (by decide +kernel)
  have hcut : Accepted Language.ofCalc.relex? (tree [first, plus, second]) (tree [first, second]) :=
    .batch [⟨⟨2, 3⟩, []⟩] (by decide +kernel)
  have hhistory := ((Relation.ReflTransGen.single hsecond).tail hfirst).tail hcut
  exact ⟨_, _, hparse, hhistory, by decide +kernel, hkinds _ hhistory⟩

end LosslessTree.TextEdit
