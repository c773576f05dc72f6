import LosslessTree.Proofs.Decl.Reading
import LosslessTree.Proofs.Language.Revision

/-! Struct declarations are read by their symbols alone: two readings of a text and of a revision of it
give trees that differ by the same revision. -/
namespace LosslessTree.Decl
open Lexeme

variable {cs : List Change} {ls ms rest rest' : List (Lexeme Symbol)} {ts us : List Tree} {t u : Tree}

lemma kind_injective : Function.Injective (Symbols.kind : Symbol → Kind) := by
  intro s t h
  cases s <;> cases t <;> first | rfl | cases h

lemma aligned_absent (h : Revised cs ls ms) : Aligned cs (absent ls) (absent ms) :=
  h.leading.append fun _ hd => hd.empty _

lemma aligned_required (s : Symbol) {form : Tree → Tree}
    (hform : ∀ bs t u, Tree.Revised bs [t] [u] → Tree.Revised bs [form t] [form u]) (h : Revised cs ls ms) :
    Aligned cs (required s form ls) (required s form ms) := by
  refine h.ifNext s (fun l rest m rest' hl hlead => hlead.append fun ds hd => ?_) (aligned_absent h)
  obtain ⟨bs, es, rfl, htoken, hrest⟩ := hd.token hl
  exact ⟨bs, es, rfl, hform _ _ _ htoken, hrest⟩

lemma aligned_named (s : Symbol) (h : Revised cs ls ms) : Aligned cs (named s ls) (named s ms) :=
  aligned_required .ident (fun _ _ _ ht => ht.under s.kind) h

lemma aligned_fieldOf (h : Revised cs ls ms) : Aligned cs (fieldOf ls) (fieldOf ms) := by
  refine h.leading.append fun ds hd => ?_
  have hcolon := (aligned_named .name hd).append fun _ he => aligned_required .colon (fun _ _ _ ht => ht) he
  exact (hcolon.append fun _ he => aligned_named .type he).node _

lemma aligned_commaOf (h : Revised cs ls ms) : Aligned cs (commaOf ls) (commaOf ms) :=
  h.ifNext .comma (fun _ _ _ _ hl hlead => hlead.append fun _ hd => hd.token hl) h.aligned

/-- The insides of a declaration and of its revision are read alike. -/
theorem Fields.revised (h : Fields ls ts rest) (h' : Fields ms us rest') (hls : Revised cs ls ms) :
    Aligned cs (ts, rest) (us, rest') := by
  induction h generalizing cs ms us rest' with
  | @close ls l rest next brace =>
    obtain ⟨m, after, hm, hsymbol⟩ := hls.pending next
    have hnext := next?_of_pending hm
    rw [hsymbol, brace] at hnext
    cases h' with
    | close next' brace' =>
      exact (hls.upTo next next').append fun ds hd => hd.token (not_trivia_of_pending next)
    | cut ends' => simp [hnext] at ends'
    | field next' more' => simp [hnext] at next'
    | stray next' brace' keyword' name' more' =>
      rw [next?_of_pending next', Option.some.injEq] at hnext
      exact absurd hnext brace'
  | @cut ls ends =>
    rw [← hls.next?_eq] at ends
    cases h' with
    | close next' brace' => simp [next?_of_pending next', brace'] at ends
    | cut ends' => exact aligned_absent hls
    | field next' more' => simp [next'] at ends
    | stray next' brace' keyword' name' more' => simp [next?_of_pending next', keyword'] at ends
  | @field ls ts rest next more ih =>
    rw [← hls.next?_eq] at next
    cases h' with
    | close next' brace' => simp [next?_of_pending next', brace'] at next
    | cut ends' => simp [next] at ends'
    | field next' more' =>
      have hcomma := (aligned_fieldOf hls).append fun ds hd => aligned_commaOf hd
      exact hcomma.append fun ds hd => ih more' hd
    | stray next' brace' keyword' name' more' => simp [next?_of_pending next', name'] at next
  | @stray ls l after ts rest next brace keyword name more ih =>
    obtain ⟨m, after', hm, hsymbol⟩ := hls.pending next
    have hnext := next?_of_pending hm
    rw [hsymbol] at hnext
    cases h' with
    | close next' brace' =>
      rw [next?_of_pending next', brace', Option.some.injEq] at hnext
      exact absurd hnext.symm brace
    | cut ends' => simp [hnext, keyword] at ends'
    | field next' more' => simp [hnext, name] at next'
    | stray next' brace' keyword' name' more' =>
      exact (hls.upTo next next').append fun ds hd =>
        ((hd.token (not_trivia_of_pending next)).node _).append fun es he => ih more' he

/-- A declaration and its revision are read alike. -/
lemma Declaration.revised (h : Declaration ls t rest) (h' : Declaration ms u rest') (hls : Revised cs ls ms) :
    Aligned cs ([t], rest) ([u], rest') := by
  have hname : ∀ {l m : Lexeme Symbol} {ls ms : List (Lexeme Symbol)}, l.symbol = .structKeyword →
      Revised cs (l :: ls) (m :: ms) → Aligned cs ([l.tree] ++ (named .name ls).1, (named .name ls).2)
        ([m.tree] ++ (named .name ms).1, (named .name ms).2) := by
    intro l m ls ms hl hls
    exact (hls.token (by rw [hl]; rfl)).append fun ds hd => aligned_named .name hd
  cases h with
  | @body l ls b after ts rest keyword next brace fields =>
    cases h' with
    | @body m ms b' after' us rest' keyword' next' brace' fields' =>
      have hvisible := not_trivia_of_pending next
      have hbody : ∀ ds, Revised ds (b :: after) (b' :: after') →
          Aligned ds ([b.tree] ++ ts, rest) ([b'.tree] ++ us, rest') :=
        fun ds hd => (hd.token hvisible).append fun es he => fields.revised fields' he
      exact ((hname keyword hls).append fun ds hd => (hd.upTo next next').append hbody).node _
    | bare keyword' next' =>
      obtain ⟨bs, ds, rfl, -, hrest⟩ := hname keyword hls
      rw [hrest.next?_eq, next?_of_pending next, brace] at next'
      exact absurd rfl next'
  | @bare l ls keyword next =>
    cases h' with
    | body keyword' next' brace' fields' =>
      obtain ⟨bs, ds, rfl, -, hrest⟩ := hname keyword hls
      rw [← hrest.next?_eq, next?_of_pending next', brace'] at next
      exact absurd rfl next
    | bare keyword' next' => exact ((hname keyword hls).append fun ds hd => aligned_absent hd).node _

/-- What a text and its revision declare differs by the same revision. -/
theorem Source.revised (h : Source ls ts) (h' : Source ms us) (hls : Revised cs ls ms) :
    Tree.Revised cs ts us := by
  suffices hall : Aligned (σ := Symbol) cs (ts, []) (us, []) from hall.revised
  induction h generalizing cs ms us with
  | @done ls ends =>
    rw [← hls.next?_eq] at ends
    cases h' with
    | done ends' =>
      have hlead := hls.leading
      rwa [pending_eq_nil_of_next? (hls.next?_eq ▸ ends'), pending_eq_nil_of_next? ends'] at hlead
    | declaration next' item' more' => simp [ends] at next'
    | stray next' keyword' more' => simp [next?_of_pending next'] at ends
  | @declaration ls t rest us next item more ih =>
    rw [← hls.next?_eq] at next
    cases h' with
    | done ends' => simp [next] at ends'
    | declaration next' item' more' =>
      exact hls.leading.append fun ds hd => (item.revised item' hd).append fun es he => ih more' he
    | stray next' keyword' more' => simp [next?_of_pending next', keyword'] at next
  | @stray ls l rest us next keyword more ih =>
    obtain ⟨m, after, hm, hsymbol⟩ := hls.pending next
    have hnext := next?_of_pending hm
    rw [hsymbol] at hnext
    cases h' with
    | done ends' => simp [hnext] at ends'
    | declaration next' item' more' => simp [hnext, keyword] at next'
    | stray next' keyword' more' =>
      exact (hls.upTo next next').append fun ds hd =>
        ((hd.token (not_trivia_of_pending next)).node _).append fun es he => ih more' he

end LosslessTree.Decl
