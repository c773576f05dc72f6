import LosslessTree.Language.Feed
import LosslessTree.Proofs.Tree.Builder
import Mathlib.Data.List.DropRight
import Mathlib.Data.List.TakeWhile

/-! What parsers do to a builder, as long as nobody cancels them. A live feed is inside an open node;
`Adds` says that a parser has put some finished trees into that node and left all else as it was. -/
namespace LosslessTree
namespace Lexeme

variable {σ : Type} [Symbols σ]

/-- A lexeme as a token of a tree. -/
def leaf (l : Lexeme σ) : Leaf := ⟨Symbols.kind l.symbol, l.text⟩

def tree (l : Lexeme σ) : Tree := .token (Symbols.kind l.symbol) l.text

@[simp] lemma leaves_tree (l : Lexeme σ) : l.tree.leaves = [l.leaf] := Tree.leaves_token _ _

lemma flatMap_leaves_tree (ls : List (Lexeme σ)) : (ls.map tree).flatMap Tree.leaves = ls.map leaf := by
  induction ls with
  | nil => rfl
  | cons l ls ih => simp [ih]

@[simp] lemma nodeKinds_tree (l : Lexeme σ) : l.tree.nodeKinds = [] := rfl

/-- The trivia that come first. -/
def leading (ls : List (Lexeme σ)) : List (Lexeme σ) := ls.takeWhile fun l => Symbols.isTrivia l.symbol

/-- What comes after the first trivia. -/
def pending (ls : List (Lexeme σ)) : List (Lexeme σ) := ls.dropWhile fun l => Symbols.isTrivia l.symbol

/-- The next symbol that is not trivia. -/
def next? (ls : List (Lexeme σ)) : Option σ := (pending ls).head?.map Lexeme.symbol

lemma leading_append_pending (ls : List (Lexeme σ)) : leading ls ++ pending ls = ls :=
  List.takeWhile_append_dropWhile

lemma pending_pending (ls : List (Lexeme σ)) : pending (pending ls) = pending ls :=
  List.dropWhile_idempotent _ ls

lemma leading_cons_of_trivia {l : Lexeme σ} (h : Symbols.isTrivia l.symbol = true) (ls : List (Lexeme σ)) :
    leading (l :: ls) = l :: leading ls := by simp [leading, h]

lemma pending_cons_of_trivia {l : Lexeme σ} (h : Symbols.isTrivia l.symbol = true) (ls : List (Lexeme σ)) :
    pending (l :: ls) = pending ls := by simp [pending, h]

lemma leading_cons_of_not_trivia {l : Lexeme σ} (h : ¬ Symbols.isTrivia l.symbol = true)
    (ls : List (Lexeme σ)) : leading (l :: ls) = [] := by simp [leading, h]

lemma pending_cons_of_not_trivia {l : Lexeme σ} (h : ¬ Symbols.isTrivia l.symbol = true)
    (ls : List (Lexeme σ)) : pending (l :: ls) = l :: ls := by simp [pending, h]

lemma next?_pending (ls : List (Lexeme σ)) : next? (pending ls) = next? ls := by
  rw [next?, pending_pending, next?]

lemma leading_of_pending_eq {ls : List (Lexeme σ)} (h : pending ls = ls) : leading ls = [] := by
  have ha := leading_append_pending ls
  rw [h] at ha
  simpa using ha

/-- What comes after trivia is not trivia. -/
lemma not_trivia_of_pending {ls rest : List (Lexeme σ)} {l : Lexeme σ} (h : pending ls = l :: rest) :
    Symbols.isTrivia l.symbol = false := by
  have hd := List.head?_dropWhile_not (fun l : Lexeme σ => Symbols.isTrivia l.symbol) ls
  rw [show ls.dropWhile (fun l => Symbols.isTrivia l.symbol) = l :: rest from h] at hd
  simpa using hd

lemma length_pending_le (ls : List (Lexeme σ)) : (pending ls).length ≤ ls.length :=
  (List.dropWhile_sublist _).length_le

lemma pending_eq_of_next? {ls : List (Lexeme σ)} {s : σ} (h : next? ls = some s) :
    ∃ l rest, pending ls = l :: rest ∧ l.symbol = s := by
  unfold next? at h
  cases hp : pending ls with
  | nil => simp [hp] at h
  | cons l rest => exact ⟨l, rest, rfl, by simpa [hp] using h⟩

lemma next?_of_pending {ls rest : List (Lexeme σ)} {l : Lexeme σ} (h : pending ls = l :: rest) :
    next? ls = some l.symbol := by
  rw [next?, h]
  rfl

lemma pending_eq_nil_of_next? {ls : List (Lexeme σ)} (h : next? ls = none) : pending ls = [] := by
  unfold next? at h
  simpa using h

/-- The lexemes that are not trivia. -/
def visible (ls : List (Lexeme σ)) : List (Lexeme σ) := ls.filter fun l => !Symbols.isTrivia l.symbol

lemma visible_pending (ls : List (Lexeme σ)) : visible (pending ls) = visible ls := by
  induction ls with
  | nil => rfl
  | cons l ls ih =>
    by_cases h : Symbols.isTrivia l.symbol = true
    · rw [pending_cons_of_trivia h, ih, visible, visible, List.filter_cons_of_neg (by simp [h])]
    · rw [pending_cons_of_not_trivia h]

/-- What is pending is the first visible lexeme and what comes after it. -/
lemma visible_of_pending {ls rest : List (Lexeme σ)} {l : Lexeme σ} (h : pending ls = l :: rest) :
    visible ls = l :: visible rest := by
  rw [← visible_pending, h, visible, List.filter_cons_of_pos (by simp [not_trivia_of_pending h])]
  rfl

lemma visible_cons {l : Lexeme σ} (h : ¬ Symbols.isTrivia l.symbol = true) (ls : List (Lexeme σ)) :
    visible (l :: ls) = l :: visible ls :=
  visible_of_pending (pending_cons_of_not_trivia h ls)

lemma pending_of_visible {ls more : List (Lexeme σ)} {l : Lexeme σ} (h : visible ls = l :: more) :
    ∃ rest, pending ls = l :: rest ∧ visible rest = more := by
  cases hp : pending ls with
  | nil =>
    rw [← visible_pending, hp] at h
    cases h
  | cons l' rest =>
    rw [visible_of_pending hp] at h
    cases h
    exact ⟨rest, rfl, rfl⟩

lemma next?_of_visible {ls more : List (Lexeme σ)} {l : Lexeme σ} (h : visible ls = l :: more) :
    next? ls = some l.symbol := by
  obtain ⟨rest, hp, -⟩ := pending_of_visible h
  exact next?_of_pending hp

lemma visible_eq_nil_iff {ls : List (Lexeme σ)} : visible ls = [] ↔ next? ls = none := by
  cases hp : pending ls with
  | nil =>
    have hnil : visible ls = [] := by rw [← visible_pending, hp]; rfl
    simp [hnil, next?, hp]
  | cons l rest => simp [visible_of_pending hp, next?_of_pending hp]

/-- Some trees, and the lexemes after them. -/
abbrev Reading (σ : Type) := List Tree × List (Lexeme σ)

section
variable [DecidableEq σ] {s : σ} {ls rest : List (Lexeme σ)} {l : Lexeme σ}

/-- A reading that depends on whether the next symbol is `s`. -/
def ifNext (s : σ) (ls : List (Lexeme σ)) (found : Lexeme σ → List (Lexeme σ) → Reading σ)
    (other : Reading σ) : Reading σ :=
  match pending ls with
  | [] => other
  | l :: rest => if l.symbol = s then found l rest else other

variable {found : Lexeme σ → List (Lexeme σ) → Reading σ} {other : Reading σ}

lemma ifNext_of_eq (h : pending ls = l :: rest) (hl : l.symbol = s) :
    ifNext s ls found other = found l rest := by
  simp [ifNext, h, hl]

lemma ifNext_of_ne (h : next? ls ≠ some s) : ifNext s ls found other = other := by
  unfold ifNext
  cases hp : pending ls with
  | nil => rfl
  | cons l rest =>
    have hl : l.symbol ≠ s := by simpa [next?, hp] using h
    exact if_neg hl

end

/-- Some trees and the lexemes left hold exactly these lexemes, in order. -/
def Covers (ls : List (Lexeme σ)) (ts : List Tree) (rest : List (Lexeme σ)) : Prop :=
  ts.flatMap Tree.leaves ++ rest.map leaf = ls.map leaf

namespace Covers

variable {ls mid rest : List (Lexeme σ)} {ts us : List Tree}

lemma refl (ls : List (Lexeme σ)) : Covers ls [] ls := rfl

lemma token (l : Lexeme σ) (rest : List (Lexeme σ)) : Covers (l :: rest) [l.tree] rest := by
  simp [Covers]

lemma empty (k : Kind) (ls : List (Lexeme σ)) : Covers ls [.node k []] ls := by
  simp [Covers]

lemma trans (h : Covers ls ts mid) (h' : Covers mid us rest) : Covers ls (ts ++ us) rest := by
  unfold Covers at *
  rw [List.flatMap_append, List.append_assoc, h', h]

/-- A node over some trees holds what they hold. -/
lemma node (h : Covers ls ts rest) (k : Kind) : Covers ls [.node k ts] rest := by
  simpa [Covers] using h

lemma leading (ls : List (Lexeme σ)) : Covers ls ((leading ls).map tree) (pending ls) := by
  unfold Covers
  rw [flatMap_leaves_tree, ← List.map_append, leading_append_pending]

lemma ifNext [DecidableEq σ] (s : σ) {found : Lexeme σ → List (Lexeme σ) → Reading σ} {other : Reading σ}
    (hfound : ∀ l rest, pending ls = l :: rest → Covers ls (found l rest).1 (found l rest).2)
    (hother : Covers ls other.1 other.2) :
    Covers ls (Lexeme.ifNext s ls found other).1 (Lexeme.ifNext s ls found other).2 := by
  by_cases h : next? ls = some s
  · obtain ⟨l, rest, hp, hl⟩ := pending_eq_of_next? h
    rw [ifNext_of_eq hp hl]
    exact hfound l rest hp
  · rwa [ifNext_of_ne h]

lemma upTo (h : pending ls = rest) : Covers ls ((Lexeme.leading ls).map tree) rest :=
  h ▸ leading ls

end Covers
end Lexeme

namespace Feed
open Lexeme

variable {σ : Type} {p q r : Feed σ} {ts us : List Tree}

/-- Nothing has failed and nobody cancels; a node is open, and its start is reached. -/
structure Live (p : Feed σ) : Prop where
  running : p.cancelled = false
  never : p.cancellation = .never
  accepted : p.builder.failure = none
  inside : p.builder.opened ≠ []
  reached : ∀ top ∈ p.builder.opened.head?, top.start ≤ p.builder.elements.size

/-- From `p` to `q` these trees were added to the open node. -/
structure Adds (p : Feed σ) (ts : List Tree) (q : Feed σ) : Prop extends p.builder.Adds ts q.builder where
  running : q.cancelled = false
  never : q.cancellation = .never

lemma Live.adds_self (hp : Live p) : p.Adds [] p := ⟨Builder.adds_self hp.accepted, hp.running, hp.never⟩

lemma Adds.trans (h : p.Adds ts q) (h' : q.Adds us r) : p.Adds (ts ++ us) r :=
  ⟨h.toAdds.trans h'.toAdds, h'.running, h'.never⟩

/-- What is left to feed is what is left to read. -/
lemma Adds.length_rest_le (h : p.Adds ts q) (hp : Live p) (hle : q.left ≤ p.left) :
    q.rest.length ≤ p.rest.length := by
  simpa [left, hp.running, h.running] using hle

lemma Adds.size_le (h : p.Adds ts q) : p.builder.elements.size ≤ q.builder.elements.size := by
  rw [← Array.length_toList, ← Array.length_toList, h.elements, List.length_append]
  omega

lemma Adds.live (h : p.Adds ts q) (hp : Live p) : Live q := by
  refine ⟨h.running, h.never, h.accepted, h.opened ▸ hp.inside, ?_⟩
  intro top ht
  rw [h.opened] at ht
  exact Nat.le_trans (hp.reached top ht) h.size_le

/-- A checkpoint taken in the open node fits as long as only trees are added to it. -/
lemma Adds.fits (hp : Live p) (h : p.Adds ts q) : q.builder.Fits p.builder.checkpoint := by
  refine ⟨?_, h.size_le, ?_⟩
  · rw [Builder.depth, h.opened]
    rfl
  · intro top ht
    rw [h.opened] at ht
    exact hp.reached top ht

variable [Symbols σ] {s : σ}

lemma Live.start (hp : Live p) (s : σ) : Live (p.start s) := by
  unfold Feed.start
  rw [Builder.start_of_ok hp.accepted]
  exact ⟨hp.running, hp.never, hp.accepted, by simp, by simp⟩

/-- A node opened, filled and closed. -/
lemma Adds.node (hp : Live p) (h : (p.start s).Adds ts q) :
    p.Adds [.node (Symbols.kind s) ts] q.finish :=
  ⟨h.toAdds.node hp.accepted, h.running, h.never⟩

lemma Adds.startAt (hp : Live p) (h : p.Adds ts q) (s : σ) : Live (q.startAt p.builder.checkpoint s) := by
  unfold Feed.startAt
  rw [Builder.startAt_of_fits h.accepted (h.fits hp)]
  refine ⟨h.running, h.never, h.accepted, by simp, ?_⟩
  intro top ht
  cases ht
  exact h.size_le

/-- A node opened late, around what was added since the checkpoint, and then filled and closed. -/
lemma Adds.wrap (hp : Live p) (h : p.Adds ts q) (h' : (q.startAt p.builder.checkpoint s).Adds us r) :
    p.Adds [.node (Symbols.kind s) (ts ++ us)] r.finish := by
  have ho := h'.opened
  have he := h'.elements
  have hc := h'.cache
  unfold Feed.startAt at ho he hc
  rw [Builder.startAt_of_fits h.accepted (h.fits hp)] at ho he hc
  rw [h.opened] at ho
  rw [h.elements, List.append_assoc] at he
  rw [h.cache, ← Cache.serve_append, ← List.flatMap_append] at hc
  exact ⟨Builder.adds_finishNode h'.accepted ho he hc, h'.running, h'.never⟩

/-- One lexeme goes into the open node. -/
lemma Live.feed (hp : Live p) {l : Lexeme σ} {rest : List (Lexeme σ)} (h : p.rest = l :: rest) :
    p.Adds [l.tree] p.feed ∧ p.feed.rest = rest := by
  have hdue : ((p.fed + 1) % checkInterval == 0 && p.cancellation.isDue) = false := by
    rw [hp.never]
    exact Bool.and_false _
  have hnext : (if ((p.fed + 1) % checkInterval == 0) = true then p.cancellation.next else p.cancellation) =
      .never := by
    rw [hp.never]
    exact ite_self _
  have hf : p.feed = { p with
      fed := p.fed + 1, cancellation := .never, cancelled := false, rest := rest,
      builder := p.builder.token (Symbols.kind l.symbol) l.text } := by
    simp only [Feed.feed, hp.running, h, hdue, hnext]
    rfl
  rw [hf]
  exact ⟨⟨Builder.adds_token hp.accepted hp.inside _ _, rfl, rfl⟩, rfl⟩

lemma Live.feedTrivia (hp : Live p) {ahead : List (Lexeme σ)} (h : p.rest = ahead) :
    p.Adds ((leading ahead).map tree) (p.feedTrivia ahead) ∧ (p.feedTrivia ahead).rest = pending ahead := by
  induction ahead generalizing p with
  | nil => exact ⟨hp.adds_self, h⟩
  | cons l ahead ih =>
    by_cases ht : Symbols.isTrivia l.symbol = true
    · obtain ⟨hadd, hrest⟩ := hp.feed h
      obtain ⟨hadds, hpending⟩ := ih (hadd.live hp) hrest
      have hf : p.feedTrivia (l :: ahead) = p.feed.feedTrivia ahead := by
        simp [Feed.feedTrivia, hp.running, ht]
      rw [hf, leading_cons_of_trivia ht, pending_cons_of_trivia ht]
      exact ⟨hadd.trans hadds, hpending⟩
    · have hf : p.feedTrivia (l :: ahead) = p := by
        simp [Feed.feedTrivia, ht]
      rw [hf, leading_cons_of_not_trivia ht, pending_cons_of_not_trivia ht]
      exact ⟨hp.adds_self, h⟩

lemma Live.eatTrivia (hp : Live p) :
    p.Adds ((leading p.rest).map tree) p.eatTrivia ∧ p.eatTrivia.rest = pending p.rest :=
  hp.feedTrivia rfl

lemma Live.peek (hp : Live p) : p.peek = next? p.rest := by
  rw [Feed.peek, if_neg (by simp [hp.running]), List.find?_eq_head?_dropWhile_not]
  simp [next?, pending]

/-- Pending trivia and the lexeme after them go into the open node. -/
lemma Live.bump (hp : Live p) {l : Lexeme σ} {rest : List (Lexeme σ)} (h : pending p.rest = l :: rest) :
    p.Adds ((leading p.rest).map tree ++ [l.tree]) p.bump ∧ p.bump.rest = rest := by
  obtain ⟨hadds, hrest⟩ := hp.eatTrivia
  obtain ⟨hadd, hrest'⟩ := (hadds.live hp).feed (hrest.trans h)
  exact ⟨hadds.trans hadd, hrest'⟩

/-- A node around the next lexeme alone; trivia before it stay outside. -/
lemma Live.bumpInto (hp : Live p) {l : Lexeme σ} {rest : List (Lexeme σ)} (h : pending p.rest = l :: rest)
    (s : σ) :
    p.Adds ((leading p.rest).map tree ++ [.node (Symbols.kind s) [l.tree]]) (p.eatTrivia.start s).bump.finish ∧
      (p.eatTrivia.start s).bump.finish.rest = rest := by
  obtain ⟨hadds, hrest⟩ := hp.eatTrivia
  have hq := hadds.live hp
  have hs : (p.eatTrivia.start s).rest = l :: rest := hrest.trans h
  have hpend : pending (l :: rest) = l :: rest := h ▸ pending_pending p.rest
  obtain ⟨hbump, hrest'⟩ := (hq.start s).bump (by rw [hs, hpend])
  rw [hs, leading_of_pending_eq hpend] at hbump
  exact ⟨hadds.trans (hbump.node hq), hrest'⟩

/-- A parser that looks whether the next symbol is `s`. -/
lemma Live.ifNext [DecidableEq σ] (hp : Live p) (s : σ) {found : Lexeme σ → List (Lexeme σ) → Reading σ}
    {other : Reading σ}
    (hfound : ∀ l rest, pending p.rest = l :: rest → p.Adds (found l rest).1 q ∧ q.rest = (found l rest).2)
    (hother : p.Adds other.1 r ∧ r.rest = other.2) :
    p.Adds (Lexeme.ifNext s p.rest found other).1 (if p.peek = some s then q else r) ∧
      (if p.peek = some s then q else r).rest = (Lexeme.ifNext s p.rest found other).2 := by
  rw [hp.peek]
  by_cases h : next? p.rest = some s
  · obtain ⟨l, rest, hl, hs⟩ := pending_eq_of_next? h
    rw [if_pos h, ifNext_of_eq hl hs]
    exact hfound l rest hl
  · rw [if_neg h, ifNext_of_ne h]
    exact hother

/-- A feed over some lexemes with its root opened. -/
def root (s : σ) (lexemes : List (Lexeme σ)) (cache : Cache) : Feed σ :=
  ({ rest := lexemes, builder := { cache := cache }, cancellation := .never } : Feed σ).start s

lemma live_root (s : σ) (lexemes : List (Lexeme σ)) (cache : Cache) : Live (root s lexemes cache) :=
  ⟨rfl, rfl, rfl, by simp [root, Feed.start, Builder.start], by simp [root, Feed.start, Builder.start]⟩

/-- Closing the root over the trees that were added gives the tree. -/
lemma Adds.outcome {lexemes : List (Lexeme σ)} {cache : Cache} (h : (root s lexemes cache).Adds ts q)
    (language : String) :
    q.outcome language =
      ⟨.ok (.node (Symbols.kind s) ts), (cache.serve (Tree.node (Symbols.kind s) ts).subtrees).2, .never⟩ := by
  have hroot : Builder.Adds { cache := cache } [.node (Symbols.kind s) ts] q.finish.builder :=
    Builder.Adds.node rfl h.toAdds
  simp only [Feed.outcome, hroot.finish, h.running, h.never]
  rfl

end Feed
end LosslessTree
