import LosslessTree.Proofs.Calc.Reading
import LosslessTree.Proofs.Language.Revision

/-! Arithmetic expressions are read by their symbols alone: two readings of a text and of a revision of
it take the same rules, and give trees that differ by the same revision. -/
namespace LosslessTree.Calc
open Lexeme

variable {g g' : Goal} {bs cs : List Change} {ls ms rest rest' : List (Lexeme Symbol)} {ts us : List Tree}

lemma kind_injective : Function.Injective (Symbols.kind : Symbol → Kind) := by
  have hofKind : ∀ s : Symbol, Symbol.ofKind? (Symbols.kind s) = some s := by
    intro s
    cases s <;> rfl
  intro s t h
  exact Option.some.inj ((hofKind s).symm.trans (h ▸ hofKind t))

lemma aligned_closing (h : Revised cs ls ms) : Aligned cs (closing ls) (closing ms) := by
  refine h.ifNext .rightParen (fun l rest m rest' hl hlead => ?_) (h.empty _)
  exact hlead.append fun ds hd => hd.token hl

/-- The same goal, with what was read before it revised. -/
inductive Goal.Revised : List Change → Goal → Goal → Prop
  | expression (power : Nat) : Revised [] (.expression power) (.expression power)
  | operand : Revised [] .operand .operand
  | operations {bs : List Change} {left left' : List Tree} (power : Nat)
      (taken : Tree.Revised bs left left') : Revised bs (.operations power left) (.operations power left')

/-- An operand does not begin where an expression is given up. -/
lemma Reads.not_ends (h : Reads .operand (pending ls) ts rest) :
    ¬ (next? ls = none ∨ next? ls = some .rightParen) := by
  unfold next?
  generalize pending ls = ahead at h
  cases h with
  | atom atom => rcases atom with h | h <;> simp [h]
  | parens left inner => simp [left]
  | signed sign inner => rcases sign with h | h <;> simp [h]
  | stray visible starts right => simp [right]

/-- Readings of a text and of its revision take the same rules. -/
theorem Reads.revised (h : Reads g ls ts rest) (h' : Reads g' ms us rest') (hg : Goal.Revised bs g g')
    (hls : Revised cs ls ms) : Aligned (bs ++ cs) (ts, rest) (us, rest') := by
  induction h generalizing g' bs cs ms us rest' with
  | gap ends =>
    cases hg
    cases h' with
    | gap ends' => exact hls.leading.append fun ds hd => hd.empty _
    | expression operand' operations' => exact absurd (hls.next?_eq.symm ▸ ends) operand'.not_ends
  | expression operand operations iho ihs =>
    cases hg
    cases h' with
    | gap ends' => exact absurd (hls.next?_eq ▸ ends') operand.not_ends
    | expression operand' operations' =>
      refine hls.leading.append fun ds hd => ?_
      obtain ⟨es, fs, hds, hts, hmid⟩ := iho operand' .operand hd
      rw [List.nil_append] at hds
      rw [hds]
      exact ihs operations' (.operations _ hts) hmid
  | @atom l rest atom =>
    cases hg
    have hl : l.symbol.isTrivia = false := by rcases atom with h | h <;> rw [h] <;> rfl
    obtain ⟨m, ms, rfl, hm⟩ := hls.exists_cons hl
    cases h'
    case atom atom' => exact hls.token hl
    all_goals rcases atom with h | h <;> simp_all [startsOperand]
  | @parens l ls ts mid left inner ih =>
    cases hg
    have hl := (Reads.parens left inner).operand_visible
    obtain ⟨m, ms, rfl, hm⟩ := hls.exists_cons hl
    cases h'
    case parens left' inner' =>
      have hinner := (hls.token hl).append fun ds hd => ih inner' (.expression 0) hd
      exact (hinner.append fun ds hd => aligned_closing hd).node _
    all_goals simp_all [startsOperand]
  | @signed l ls ts rest sign inner ih =>
    cases hg
    have hl := (Reads.signed sign inner).operand_visible
    obtain ⟨m, ms, rfl, hm⟩ := hls.exists_cons hl
    cases h'
    case signed sign' inner' =>
      exact ((hls.token hl).append fun ds hd => ih inner' (.expression signPower) hd).node _
    all_goals rcases sign with h | h <;> simp_all [startsOperand]
  | @stray l rest visible starts right =>
    cases hg
    obtain ⟨m, ms, rfl, hm⟩ := hls.exists_cons visible
    rw [← hm] at starts right
    cases h'
    case stray visible' starts' right' => exact (hls.token visible).node _
    case atom atom' => rcases atom' with h | h <;> simp [h, startsOperand] at starts
    case parens left' inner' => simp [left', startsOperand] at starts
    case signed sign' inner' => rcases sign' with h | h <;> simp [h, startsOperand] at starts
  | stop weaker =>
    cases hg with
    | operations _ taken =>
      cases h' with
      | stop weaker' => exact ⟨_, _, rfl, taken, hls⟩
      | @operation _ _ _ op after low high _ _ _ _ next' binds' strong' right' more' =>
        have hlow := weaker low high (by rw [← hls.next?_eq, next?_of_pending next']; exact binds')
        omega
  | @operation power left ls op after low high ts mid out rest next binds strong right more ihr ihm =>
    cases hg with
    | @operations _ _ left' _ taken =>
      cases h' with
      | stop weaker' =>
        have hlow := weaker' low high (by rw [hls.next?_eq, next?_of_pending next]; exact binds)
        omega
      | @operation _ _ _ op' after' low' high' ts' mid' _ _ next' binds' strong' right' more' =>
        have hop : op'.symbol = op.symbol := by
          have hnext := hls.next?_eq
          rw [next?_of_pending next, next?_of_pending next'] at hnext
          exact Option.some.inj hnext
        obtain ⟨rfl, rfl⟩ : low' = low ∧ high' = high := by
          rw [hop, binds] at binds'
          cases binds'
          exact ⟨rfl, rfl⟩
        have hbase : Aligned (bs ++ cs) (left, ls) (left', ms) := ⟨bs, cs, rfl, taken, hls⟩
        have hright : ∀ ds, Revised ds after after' → Aligned ds (ts, mid) (ts', mid') :=
          fun ds hd => ihr right' (.expression high') hd
        have hlead := hbase.append fun ds hd => hd.leading
        rw [next, next'] at hlead
        have hnode := (hlead.append fun ds hd =>
          (hd.token (not_trivia_of_pending next)).append hright).node Symbol.binary.kind
        obtain ⟨es, fs, hcs, hleft, hmid⟩ := hnode
        rw [hcs]
        exact ihm more' (.operations power hleft) hmid

/-- The items of a text and of its revision differ by the same revision. -/
theorem Items.revised (h : Items ls ts) (h' : Items ms us) (hls : Revised cs ls ms) :
    Tree.Revised cs ts us := by
  suffices hall : Aligned (σ := Symbol) cs (ts, []) (us, []) from hall.revised
  induction h generalizing cs ms us with
  | @done ls ends =>
    rw [← hls.next?_eq] at ends
    cases h' with
    | done ends' =>
      have hlead := hls.leading
      rwa [pending_eq_nil_of_next? (hls.next?_eq ▸ ends'), pending_eq_nil_of_next? ends'] at hlead
    | expression next' starts' item' items' => simp [ends] at next'
    | stray next' starts' items' => simp [next?_of_pending next'] at ends
  | @expression ls s ts rest us next starts item items ih =>
    rw [← hls.next?_eq] at next
    cases h' with
    | done ends' => simp [next] at ends'
    | expression next' starts' item' items' =>
      exact (hls.leading.append fun ds hd => item.revised item' (.expression 0) hd).append fun ds hd => ih items' hd
    | stray next' starts' items' =>
      rw [next?_of_pending next', Option.some.injEq] at next
      rw [next, starts] at starts'
      cases starts'
  | @stray ls l rest us next starts items ih =>
    obtain ⟨m, after, hm, hsymbol⟩ := hls.pending next
    cases h' with
    | done ends' => simp [next?_of_pending hm] at ends'
    | expression next' starts' item' items' =>
      rw [next?_of_pending hm, Option.some.injEq] at next'
      rw [← next', hsymbol, starts] at starts'
      cases starts'
    | stray next' starts' items' =>
      exact (hls.upTo next next').append fun ds hd =>
        ((hd.token (not_trivia_of_pending next)).node _).append fun es he => ih items' he

/-- The rules read a text in one way only, so they tell its tree. -/
theorem parse_of_items {src : Bytes} (h : Items (lex src) ts) (cache : Cache) :
    (parse src cache .never).result = .ok (.node Symbol.root.kind ts) := by
  obtain ⟨us, hitems, hparse⟩ := parse_items src cache
  have hself := revised_self (lex src)
  rw [hparse, (hitems.revised hitems hself).unique (hitems.revised h hself) rfl]

end LosslessTree.Calc
