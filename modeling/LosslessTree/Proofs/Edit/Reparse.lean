import LosslessTree.Proofs.Calc.Revision
import LosslessTree.Proofs.Decl.Revision
import LosslessTree.Proofs.Edit.Tree
import LosslessTree.Proofs.Language.Parsing

/-! Edited trees against parsed ones. A batch that a tree takes always gives the edited text. It gives
the tree of that text exactly if the tokens are still the lexemes of the text, as long as no token
that carries meaning went away: nodes stay where they are, and so do their boundaries. -/
namespace LosslessTree.TextEdit
open Cursor LosslessTree.Tree

variable {root root' : Tree} {e : TextEdit} {edits : List TextEdit} {relex : Bytes → Option Kind}
  {relex? : Option (Bytes → Option Kind)}

lemma Applies.revises (h : Applies root e relex? root') (hroot : root.isNode = true) :
    Revises [root] [root'] := by
  cases h with
  | change within isToken spans lexes => exact ⟨_, within.revised_withText isToken _⟩
  | remove within isToken spans empty => exact ⟨_, within.revised_removeAt hroot isToken⟩

/-- A batch revises the tree. -/
lemma Made.revises (h : Made relex? root edits root') : Revises [root] [root'] := by
  induction h with
  | nil => exact ⟨_, revised_self root⟩
  | cons more isNode step ih => exact ih.trans (step.revises isNode)

/-- A token after an edit is one from before, or is by itself lexed as what it is. -/
lemma Applies.leaves (h : Applies root e (some relex) root') (hroot : root.isNode = true) :
    ∀ l ∈ root'.leaves, l ∈ root.leaves ∨ relex l.text = some l.kind := by
  intro l hl
  cases h with
  | @change token within isToken spans lexes =>
    rw [withText, leaves_rebuild within.sturdy, leaves_token, List.mem_append, List.mem_append,
      List.mem_singleton] at hl
    rw [within.leaves_eq, List.mem_append, List.mem_append]
    rcases hl with (hbefore | rfl) | hafter
    · exact .inl (.inl (.inl hbefore))
    · exact .inr (lexes relex rfl)
    · exact .inl (.inr hafter)
  | remove within isToken spans empty =>
    rw [leaves_removeAt within.sturdy (within.trail_ne_nil hroot isToken), List.mem_append] at hl
    rw [within.leaves_eq, List.mem_append, List.mem_append]
    exact .inl (hl.imp .inl id)

lemma Made.leaves (h : Made (some relex) root edits root') :
    ∀ l ∈ root'.leaves, l ∈ root.leaves ∨ relex l.text = some l.kind := by
  induction h with
  | nil => exact fun l hl => .inl hl
  | cons more isNode step ih =>
    intro l hl
    rcases step.leaves isNode l hl with hold | hlexed
    · exact ih l hold
    · exact .inr hlexed

section
variable {σ : Type} [Symbols σ]

/-- What is true of the tree `after`, made by a batch out of the tree `before` of the text `src`. -/
structure Agrees (lex : Bytes → List (Lexeme σ)) (parse : Bytes → Cache → Cancellation → Parsed)
    (relex : Bytes → Option Kind) (src : Bytes) (edits : List TextEdit) (before after : Tree) : Prop where
  /-- It has the edited text. -/
  text : applyText src edits = .ok after.text
  /-- Its tokens are old ones, or lexed one by one as what they are. -/
  tokens : ∀ l ∈ after.leaves, l ∈ before.leaves ∨ relex l.text = some l.kind
  /-- If all tokens of meaning are still there, it is the tree of its text exactly if its tokens are the
  lexemes of its text. -/
  parsed_iff : Lexeme.KeepsTokens σ before.leaves after.leaves → ∀ cache,
    (parse after.text cache .never).result = .ok after ↔ after.leaves = (lex after.text).map Lexeme.leaf

/-- A language whose parser follows rules that look at symbols only. -/
lemma agrees_of_rules {lex : Bytes → List (Lexeme σ)} {parse : Bytes → Cache → Cancellation → Parsed} (top : σ)
    {Rules : List (Lexeme σ) → List Tree → Prop} (hkind : Function.Injective (Symbols.kind : σ → Kind))
    (hlex : ∀ src, (lex src).flatMap Lexeme.text = src)
    (hparse : ∀ src cache, ∃ ts, Rules (lex src) ts ∧
      (parse src cache .never).result = .ok (.node (Symbols.kind top) ts))
    (hcovers : ∀ ls ts, Rules ls ts → Lexeme.Covers ls ts [])
    (hrules : ∀ cs ls ms ts us, Rules ls ts → Rules ms us → Lexeme.Revised cs ls ms → Revised cs ts us)
    {src : Bytes} {cache : Cache} {before after : Tree}
    (hbefore : (parse src cache .never).result = .ok before)
    (hafter : applyAll before edits (some relex) = .ok after) :
    Agrees lex parse relex src edits before after := by
  obtain ⟨ts, hts, hp⟩ := hparse src cache
  obtain rfl := Except.ok.inj (hp.symm.trans hbefore)
  have htree := (hcovers _ _ hts).represents (hlex src) top
  cases htext : applyText (Tree.node (Symbols.kind top) ts).text edits with
  | error p =>
    rw [(applyAll_of_error (some relex) htext).1] at hafter
    cases hafter
  | ok text =>
    rcases applyAll_cases (some relex) htree.isNode htext with ⟨root', sorted, hall, hmade, rfl⟩ | ⟨p, hp, -⟩
    · obtain rfl := Except.ok.inj (hall.symm.trans hafter)
      refine ⟨htree.text ▸ htext, hmade.leaves, fun hkeeps cache' => ?_⟩
      obtain ⟨us, hus, hp'⟩ := hparse root'.text cache'
      rw [hp', Except.ok.injEq]
      exact Lexeme.revised_tree_iff hkind (hcovers _ _ hts) (hcovers _ _ hus)
        (fun cs hcs => hrules cs _ _ _ _ hts hus hcs) hmade.revises hkeeps
    · rw [hp] at hafter
      cases hafter

end

/-- For arithmetic expressions and for struct declarations: a batch that the tree of a text takes gives a
tree with the edited text, of old tokens and of tokens that are lexed by themselves as what they are.
If no token of meaning went away, it is the tree of the edited text exactly if its tokens are the
lexemes of that text. -/
theorem applyAll_agrees (src : Bytes) (cache : Cache) (edits : List TextEdit) :
    (∀ before after, (Calc.parse src cache .never).result = .ok before →
      applyAll before edits (some Language.ofCalc.relex?) = .ok after →
      Agrees Calc.lex Calc.parse Language.ofCalc.relex? src edits before after) ∧
    (∀ before after, (Decl.parse src cache .never).result = .ok before →
      applyAll before edits (some Language.ofDecl.relex?) = .ok after →
      Agrees Decl.lex Decl.parse Language.ofDecl.relex? src edits before after) := by
  constructor
  · intro before after hbefore hafter
    exact agrees_of_rules .root Calc.kind_injective Calc.flatMap_text_lex Calc.parse_items
      (fun _ _ h => h.covers) (fun _ _ _ _ _ h h' hls => h.revised h' hls) hbefore hafter
  · intro before after hbefore hafter
    exact agrees_of_rules .sourceFile Decl.kind_injective Decl.flatMap_text_lex Decl.parse_source
      (fun _ _ h => h.covers) (fun _ _ _ _ _ h h' hls => h.revised h' hls) hbefore hafter

section
open Calc

/-- The tree of a sum of `1` and another number. -/
def onePlus (number : Bytes) : Tree := .node Symbol.root.kind [.node Symbol.binary.kind
  [.token Symbol.number.kind "1", .token Symbol.plus.kind "+", .token Symbol.number.kind number]]

lemma parse_onePlus_two (cache : Cache) : (Calc.parse "1+2" cache .never).result = .ok (onePlus "2") := by
  let rest : List (Lexeme Symbol) := [⟨.plus, "+"⟩, ⟨.number, "2"⟩]
  let ls : List (Lexeme Symbol) := ⟨.number, "1"⟩ :: rest
  have hlex : lex "1+2" = ls := by decide +kernel
  have hends : ∀ power, Weaker power [] := fun _ _ _ h => by cases h
  have htwo : Reads .operand [⟨.number, "2"⟩] [.token Symbol.number.kind "2"] [] := .atom (.inl rfl)
  have hright : Reads (.expression 2) [⟨.number, "2"⟩] [.token Symbol.number.kind "2"] [] :=
    .expression htwo (.stop (hends 2))
  have hone : Reads .operand ls [.token Symbol.number.kind "1"] rest := .atom (.inl rfl)
  have hsum : Reads (.operations 0 [.token Symbol.number.kind "1"]) rest (onePlus "2").children [] :=
    .operation rfl rfl (Nat.zero_le _) hright (.stop (hends 0))
  have hall : Reads (.expression 0) ls (onePlus "2").children [] := .expression hone hsum
  have hitems : Items ls (onePlus "2").children :=
    @Items.expression ls .number (onePlus "2").children [] [] rfl rfl hall (.done rfl)
  exact parse_of_items (hlex ▸ hitems) cache

/-- A number that grows within its token grows in the tree of the edited text. -/
theorem applyAll_agrees_number : ∃ before after, (Calc.parse "1+2" {} .never).result = .ok before ∧
    applyAll before [⟨⟨3, 3⟩, "4"⟩] (some Language.ofCalc.relex?) = .ok after ∧
    ∀ cache, (Calc.parse "1+24" cache .never).result = .ok after := by
  have hafter : applyAll (onePlus "2") [⟨⟨3, 3⟩, "4"⟩] (some Language.ofCalc.relex?) =
      .ok (onePlus "24") := by decide +kernel
  have hagrees := (applyAll_agrees "1+2" {} [⟨⟨3, 3⟩, "4"⟩]).1 _ _ (parse_onePlus_two {}) hafter
  have hkeeps : Lexeme.KeepsTokens Symbol (onePlus "2").leaves (onePlus "24").leaves := by
    intro s _
    cases s <;> decide +kernel
  have htext : (onePlus "24").text = "1+24" := by decide +kernel
  refine ⟨_, _, parse_onePlus_two {}, hafter, fun cache => ?_⟩
  rw [← htext]
  exact (hagrees.parsed_iff hkeeps cache).mpr (by decide +kernel)

/-- An operator that is deleted leaves two numbers side by side, under the node of an operation. The
text has a single number. -/
theorem deleted_operator_disagrees : ∃ before after, (Calc.parse "1+2" {} .never).result = .ok before ∧
    applyAll before [⟨⟨1, 2⟩, []⟩] (some Language.ofCalc.relex?) = .ok after ∧
    applyText "1+2" [⟨⟨1, 2⟩, []⟩] = .ok "12" ∧ (Calc.parse "12" {} .never).result ≠ .ok after ∧
    after.leaves ≠ (Calc.lex "12").map Lexeme.leaf := by
  let after : Tree := .node Symbol.root.kind [.node Symbol.binary.kind
    [.token Symbol.number.kind "1", .token Symbol.number.kind "2"]]
  have hafter : applyAll (onePlus "2") [⟨⟨1, 2⟩, []⟩] (some Language.ofCalc.relex?) = .ok after := by
    decide +kernel
  have hleaves : after.leaves ≠ (Calc.lex "12").map Lexeme.leaf := by decide +kernel
  refine ⟨_, _, parse_onePlus_two {}, hafter, by decide +kernel, fun hsame => hleaves ?_, hleaves⟩
  obtain ⟨ts, hitems, hparse⟩ := parse_items "12" {}
  rw [← Except.ok.inj (hparse.symm.trans hsame)]
  exact (hitems.covers.represents (flatMap_text_lex "12") .root).leaves

end

end LosslessTree.TextEdit
