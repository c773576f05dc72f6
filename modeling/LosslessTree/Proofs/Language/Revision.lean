import LosslessTree.Proofs.Language.Feed
import LosslessTree.Proofs.Tree.Revision

/-! Reading a revised text. Lexemes get other texts, and trivia may come to nothing; as long as the rules
of a language look at symbols only, they read the revised lexemes into the revised trees. -/
namespace LosslessTree
namespace Lexeme

variable {σ : Type} [Symbols σ]

/-- By these changes the first lexemes become the second. Only trivia go away. -/
inductive Revised : List Change → List (Lexeme σ) → List (Lexeme σ) → Prop
  | nil : Revised [] [] []
  | keep {x : σ} {s s' : Bytes} {cs : List Change} {ls ms : List (Lexeme σ)} (rest : Revised cs ls ms) :
      Revised (some s' :: cs) (⟨x, s⟩ :: ls) (⟨x, s'⟩ :: ms)
  | drop {l : Lexeme σ} {cs : List Change} {ls ms : List (Lexeme σ)}
      (trivia : Symbols.isTrivia l.symbol = true) (rest : Revised cs ls ms) :
      Revised (none :: cs) (l :: ls) ms

/-- Every text kept as it is. -/
lemma revised_self (ls : List (Lexeme σ)) : Revised (ls.map fun l => some l.text) ls ls := by
  induction ls with
  | nil => exact .nil
  | cons l ls ih => exact .keep ih

/-- The second reading gives and leaves what the changes make of what the first gives and leaves. -/
def Aligned (cs : List Change) (r r' : Reading σ) : Prop :=
  ∃ bs ds, cs = bs ++ ds ∧ Tree.Revised bs r.1 r'.1 ∧ Revised ds r.2 r'.2

variable {bs cs : List Change} {l m : Lexeme σ} {ls ms mid mid' rest rest' : List (Lexeme σ)}
  {ts ts' us us' : List Tree}

lemma Revised.aligned (h : Revised cs ls ms) : Aligned cs ([], ls) ([], ms) := ⟨[], cs, rfl, .nil, h⟩

lemma Revised.eq_nil (h : Revised cs [] ms) : ms = [] := by
  cases h
  rfl

lemma Aligned.append (h : Aligned cs (ts, mid) (ts', mid'))
    (next : ∀ ds, Revised ds mid mid' → Aligned ds (us, rest) (us', rest')) :
    Aligned cs (ts ++ us, rest) (ts' ++ us', rest') := by
  obtain ⟨bs, ds, rfl, hts, hmid⟩ := h
  obtain ⟨es, fs, rfl, hus, hrest⟩ := next ds hmid
  exact ⟨bs ++ es, fs, (List.append_assoc _ _ _).symm, hts.append hus, hrest⟩

lemma Aligned.node (h : Aligned cs (ts, rest) (ts', rest')) (k : Kind) :
    Aligned cs ([.node k ts], rest) ([.node k ts'], rest') := by
  obtain ⟨bs, ds, rfl, hts, hrest⟩ := h
  exact ⟨bs, ds, rfl, hts.under k, hrest⟩

/-- When nothing is left the changes are all made in the trees. -/
lemma Aligned.revised (h : Aligned (σ := σ) cs (ts, []) (ts', [])) : Tree.Revised cs ts ts' := by
  obtain ⟨bs, ds, rfl, hts, hrest⟩ := h
  cases hrest
  rwa [List.append_nil]

/-- An empty node, whatever it stands for. -/
lemma Revised.empty (h : Revised cs ls ms) (k : Kind) : Aligned cs ([.node k []], ls) ([.node k []], ms) :=
  h.aligned.node k

/-- A lexeme that is not trivia stays. -/
lemma Revised.exists_cons (h : Revised cs (l :: ls) ms) (hl : Symbols.isTrivia l.symbol = false) :
    ∃ m ms', ms = m :: ms' ∧ m.symbol = l.symbol := by
  cases h with
  | keep rest => exact ⟨_, _, rfl, rfl⟩
  | drop trivia rest => simp [hl] at trivia

lemma Revised.token (h : Revised cs (l :: ls) (m :: ms)) (hl : Symbols.isTrivia l.symbol = false) :
    Aligned cs ([l.tree], ls) ([m.tree], ms) := by
  cases h with
  | keep rest => exact ⟨[_], _, rfl, .keep .nil, rest⟩
  | drop trivia rest => simp [hl] at trivia

/-- The trivia that come first are revised apart from what comes after them. -/
lemma Revised.leading (h : Revised cs ls ms) :
    Aligned cs ((leading ls).map tree, pending ls) ((leading ms).map tree, pending ms) := by
  induction h with
  | nil => exact Revised.nil.aligned
  | @keep x s s' cs ls ms rest ih =>
    by_cases hx : Symbols.isTrivia x = true
    · obtain ⟨bs, ds, rfl, htrees, hpending⟩ := ih
      rw [leading_cons_of_trivia (l := ⟨x, s⟩) hx, pending_cons_of_trivia (l := ⟨x, s⟩) hx,
        leading_cons_of_trivia (l := ⟨x, s'⟩) hx, pending_cons_of_trivia (l := ⟨x, s'⟩) hx]
      exact ⟨some s' :: bs, ds, rfl, .keep htrees, hpending⟩
    · rw [leading_cons_of_not_trivia (l := ⟨x, s⟩) hx, pending_cons_of_not_trivia (l := ⟨x, s⟩) hx,
        leading_cons_of_not_trivia (l := ⟨x, s'⟩) hx, pending_cons_of_not_trivia (l := ⟨x, s'⟩) hx]
      exact (Revised.keep rest).aligned
  | drop trivia rest ih =>
    obtain ⟨bs, ds, rfl, htrees, hpending⟩ := ih
    rw [leading_cons_of_trivia trivia, pending_cons_of_trivia trivia]
    exact ⟨none :: bs, ds, rfl, .drop htrees, hpending⟩

/-- After the first trivia a lexeme stands where one stood, with the same symbol. -/
lemma Revised.pending (h : Revised cs ls ms) (hl : pending ls = l :: rest) :
    ∃ m rest', pending ms = m :: rest' ∧ m.symbol = l.symbol := by
  obtain ⟨bs, ds, rfl, htrees, hpending⟩ := h.leading
  rw [hl] at hpending
  exact hpending.exists_cons (not_trivia_of_pending hl)

lemma Revised.pending_eq_nil (h : Revised cs ls ms) (hl : Lexeme.pending ls = []) :
    Lexeme.pending ms = [] := by
  obtain ⟨bs, ds, rfl, htrees, hpending⟩ := h.leading
  rw [hl] at hpending
  exact hpending.eq_nil

/-- The next symbol is the same. -/
lemma Revised.next?_eq (h : Revised cs ls ms) : next? ms = next? ls := by
  cases hl : Lexeme.pending ls with
  | nil => rw [next?, next?, hl, h.pending_eq_nil hl]
  | cons l rest =>
    obtain ⟨m, rest', hm, hsymbol⟩ := h.pending hl
    rw [next?, next?, hl, hm, List.head?_cons, List.head?_cons, Option.map_some, Option.map_some, hsymbol]

/-- The next lexeme, with the trivia before it. -/
lemma Revised.upTo (h : Revised cs ls ms) (hl : Lexeme.pending ls = l :: rest)
    (hm : Lexeme.pending ms = m :: rest') :
    Aligned cs ((Lexeme.leading ls).map tree, l :: rest) ((Lexeme.leading ms).map tree, m :: rest') :=
  hl ▸ hm ▸ h.leading

/-- A reading that depends on the next symbol goes the same way. -/
lemma Revised.ifNext [DecidableEq σ] (h : Revised cs ls ms) (s : σ)
    {found found' : Lexeme σ → List (Lexeme σ) → Reading σ} {other other' : Reading σ}
    (hfound : ∀ l rest m rest', Symbols.isTrivia l.symbol = false →
      Aligned cs ((Lexeme.leading ls).map tree, l :: rest) ((Lexeme.leading ms).map tree, m :: rest') →
      Aligned cs (found l rest) (found' m rest'))
    (hother : Aligned cs other other') :
    Aligned cs (Lexeme.ifNext s ls found other) (Lexeme.ifNext s ms found' other') := by
  by_cases hnext : next? ls = some s
  · obtain ⟨l, rest, hl, hs⟩ := pending_eq_of_next? hnext
    obtain ⟨m, rest', hm, hsymbol⟩ := h.pending hl
    rw [ifNext_of_eq hl hs, ifNext_of_eq hm (hsymbol.trans hs)]
    exact hfound l rest m rest' (not_trivia_of_pending hl) (h.upTo hl hm)
  · rw [ifNext_of_ne hnext, ifNext_of_ne (h.next?_eq ▸ hnext)]
    exact hother

/-- As many tokens of every kind that carries meaning. -/
def KeepsTokens (σ : Type) [Symbols σ] (before after : List Leaf) : Prop :=
  ∀ s : σ, Symbols.isTrivia s = false →
    after.countP (·.kind == Symbols.kind s) = before.countP (·.kind == Symbols.kind s)

lemma countP_revise_le (cs : List Change) (ls : List Leaf) (k : Kind) :
    (Change.revise cs ls).countP (·.kind == k) ≤ ls.countP (·.kind == k) := by
  induction ls generalizing cs with
  | nil => rfl
  | cons l ls ih =>
    cases cs with
    | nil => exact Nat.zero_le _
    | cons c cs =>
      have hle := ih cs
      cases c with
      | none =>
        change (Change.revise cs ls).countP _ ≤ _
        rw [List.countP_cons]
        omega
      | some s =>
        change ((⟨l.kind, s⟩ : Leaf) :: Change.revise cs ls).countP _ ≤ _
        rw [List.countP_cons, List.countP_cons]
        exact Nat.add_le_add_right hle _

/-- Changes of the tokens that keep all of meaning are changes of the lexemes. -/
lemma revised_of_leaves (hkind : Function.Injective (Symbols.kind : σ → Kind))
    (hlength : cs.length = ls.length) (hleaves : Change.revise cs (ls.map leaf) = ms.map leaf)
    (hkeeps : KeepsTokens σ (ls.map leaf) (ms.map leaf)) : Revised cs ls ms := by
  induction ls generalizing cs ms with
  | nil =>
    obtain rfl := List.length_eq_zero_iff.mp hlength
    obtain rfl := List.map_eq_nil_iff.mp hleaves.symm
    exact .nil
  | cons l ls ih =>
    cases cs with
    | nil => cases hlength
    | cons c cs =>
      have hlength' : cs.length = ls.length := Nat.succ.inj hlength
      cases c with
      | none =>
        have hrest : Change.revise cs (ls.map leaf) = ms.map leaf := hleaves
        have htrivia : Symbols.isTrivia l.symbol = true := by
          by_contra hl
          have hcount := hkeeps l.symbol (by simpa using hl)
          have hle := countP_revise_le cs (ls.map leaf) (Symbols.kind l.symbol)
          rw [hrest, hcount, List.map_cons, List.countP_cons_of_pos (by simp [leaf])] at hle
          omega
        refine .drop htrivia (ih hlength' hrest fun s hs => ?_)
        have hne : Symbols.kind l.symbol ≠ Symbols.kind s := by
          intro heq
          rw [← hkind heq, htrivia] at hs
          cases hs
        rw [hkeeps s hs, List.map_cons, List.countP_cons_of_neg (by simpa [leaf] using hne)]
      | some s' =>
        cases ms with
        | nil => cases hleaves
        | cons m ms =>
          obtain ⟨hhead, hrest⟩ := List.cons_eq_cons.mp hleaves
          obtain ⟨x, s⟩ := l
          obtain ⟨y, t⟩ := m
          obtain ⟨hxy, rfl⟩ := Leaf.mk.inj hhead
          obtain rfl := hkind hxy
          refine .keep (ih hlength' hrest fun z hz => ?_)
          have hcount := hkeeps z hz
          simp only [List.map_cons, List.countP_cons, leaf] at hcount
          exact Nat.add_right_cancel hcount

/-- Revising the tree of some lexemes gives the tree of others exactly if the tokens are those. The rules
are asked for one thing only, to read revised lexemes into revised trees. -/
theorem revised_tree_iff (hkind : Function.Injective (Symbols.kind : σ → Kind)) (hls : Covers ls ts [])
    (hms : Covers ms us []) (hreads : ∀ cs, Revised cs ls ms → Tree.Revised cs ts us)
    {k : Kind} {t : Tree} (ht : Tree.Revises [.node k ts] [t])
    (hkeeps : KeepsTokens σ (Tree.node k ts).leaves t.leaves) :
    Tree.node k us = t ↔ t.leaves = ms.map leaf := by
  have hleaves : ∀ {ls : List (Lexeme σ)} {ts : List Tree}, Covers ls ts [] →
      ts.flatMap Tree.leaves = ls.map leaf := by
    intro ls ts h
    simpa [Covers] using h
  constructor
  · rintro rfl
    rw [Tree.leaves_node, hleaves hms]
  · intro htokens
    obtain ⟨cs, hcs⟩ := ht
    obtain ⟨vs, rfl, hvs⟩ := hcs.of_node
    rw [Tree.leaves_node] at htokens
    rw [Tree.leaves_node, Tree.leaves_node, htokens, hleaves hls] at hkeeps
    have hlength := hvs.length_eq
    have hrevise := hvs.leaves_eq
    rw [hleaves hls] at hlength hrevise
    rw [List.length_map] at hlength
    have hlexemes := revised_of_leaves hkind hlength (hrevise.symm.trans htokens) hkeeps
    rw [(hreads cs hlexemes).unique hvs rfl]

end Lexeme
end LosslessTree
