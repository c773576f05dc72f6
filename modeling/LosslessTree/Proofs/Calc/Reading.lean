import LosslessTree.Language.Calc.Parser
import LosslessTree.Proofs.Language.Feed

/-! How arithmetic expressions are read, as rules over lexemes: which trees a reading gives and what it
leaves. The rules know neither builders nor checkpoints; an operator simply takes the trees to its
left. The parser follows them on every text. -/
namespace LosslessTree.Calc
open Lexeme

/-- An empty ERROR node. -/
def gap : Tree := .node Symbol.error.kind []

/-- A closing parenthesis, or a gap in its place. -/
def closing (ls : List (Lexeme Symbol)) : Reading Symbol :=
  ifNext .rightParen ls (fun l rest => ((leading ls).map tree ++ [l.tree], rest)) ([gap], ls)

/-- If an operator comes next, it binds what is on its left less tightly than `power`. -/
def Weaker (power : Nat) (ls : List (Lexeme Symbol)) : Prop :=
  ∀ low high, (next? ls).bind bindingPower? = some (low, high) → low < power

/-- What is being read. -/
inductive Goal where
  | expression (power : Nat)
  | operand
  /-- Operators that take what was read before them for their left side. -/
  | operations (power : Nat) (left : List Tree)

/-- Reading a goal off some lexemes gives trees and leaves the rest. -/
inductive Reads : Goal → List (Lexeme Symbol) → List Tree → List (Lexeme Symbol) → Prop
  | gap {power ls} (ends : next? ls = none ∨ next? ls = some .rightParen) :
      Reads (.expression power) ls ((leading ls).map tree ++ [gap]) (pending ls)
  | expression {power ls ts mid out rest} (operand : Reads .operand (pending ls) ts mid)
      (operations : Reads (.operations power ts) mid out rest) :
      Reads (.expression power) ls ((leading ls).map tree ++ out) rest
  | atom {l rest} (atom : l.symbol = .number ∨ l.symbol = .ident) :
      Reads .operand (l :: rest) [l.tree] rest
  | parens {l ls ts mid} (left : l.symbol = .leftParen) (inner : Reads (.expression 0) ls ts mid) :
      Reads .operand (l :: ls) [.node Symbol.parens.kind (l.tree :: ts ++ (closing mid).1)] (closing mid).2
  | signed {l ls ts rest} (sign : l.symbol = .plus ∨ l.symbol = .minus)
      (inner : Reads (.expression signPower) ls ts rest) :
      Reads .operand (l :: ls) [.node Symbol.signed.kind (l.tree :: ts)] rest
  | stray {l rest} (visible : l.symbol.isTrivia = false) (starts : startsOperand l.symbol = false)
      (right : l.symbol ≠ .rightParen) :
      Reads .operand (l :: rest) [.node Symbol.error.kind [l.tree]] rest
  | stop {power left ls} (weaker : Weaker power ls) :
      Reads (.operations power left) ls left ls
  | operation {power left ls op after low high ts mid out rest} (next : pending ls = op :: after)
      (binds : bindingPower? op.symbol = some (low, high)) (strong : power ≤ low)
      (right : Reads (.expression high) after ts mid)
      (more : Reads (.operations power
        [.node Symbol.binary.kind (left ++ (leading ls).map tree ++ op.tree :: ts)]) mid out rest) :
      Reads (.operations power left) ls out rest

/-- Expressions and stray tokens up to the end of the text. -/
inductive Items : List (Lexeme Symbol) → List Tree → Prop
  | done {ls} (ends : next? ls = none) : Items ls ((leading ls).map tree)
  | expression {ls s ts rest us} (next : next? ls = some s) (starts : startsOperand s = true)
      (item : Reads (.expression 0) (pending ls) ts rest) (items : Items rest us) :
      Items ls ((leading ls).map tree ++ ts ++ us)
  | stray {ls l rest us} (next : pending ls = l :: rest) (starts : startsOperand l.symbol = false)
      (items : Items rest us) :
      Items ls ((leading ls).map tree ++ .node Symbol.error.kind [l.tree] :: us)

/-- What was read before a goal is taken up. -/
def Goal.before : Goal → List Tree
  | .operations _ left => left
  | _ => []

lemma Reads.operand_visible {l : Lexeme Symbol} {ls rest : List (Lexeme Symbol)} {ts : List Tree}
    (h : Reads .operand (l :: ls) ts rest) : l.symbol.isTrivia = false := by
  cases h with
  | atom atom => rcases atom with h | h <;> rw [h] <;> rfl
  | parens left inner => rw [left]; rfl
  | signed sign inner => rcases sign with h | h <;> rw [h] <;> rfl
  | stray visible starts right => exact visible

lemma covers_closing (ls : List (Lexeme Symbol)) : Covers ls (closing ls).1 (closing ls).2 :=
  Covers.ifNext Symbol.rightParen (fun l rest h => (Covers.upTo h).trans (.token l rest)) (.empty _ ls)

/-- A reading keeps every lexeme, in order, in its trees or in the rest. -/
theorem Reads.covers {g : Goal} {ls rest : List (Lexeme Symbol)} {ts : List Tree} (h : Reads g ls ts rest)
    {base : List (Lexeme Symbol)} (hbase : Covers base g.before ls) : Covers base ts rest := by
  induction h generalizing base with
  | gap ends => exact (hbase.trans (.leading _)).trans (.empty _ _)
  | expression operand operations iho ihs => exact (hbase.trans (.leading _)).trans (ihs (iho (.refl _)))
  | @atom l rest atom => exact hbase.trans (.token l rest)
  | @parens l ls ts mid left inner ih =>
    have hinner := (Covers.token l ls).trans (ih (.refl ls))
    exact hbase.trans ((hinner.trans (covers_closing mid)).node _)
  | @signed l ls ts rest sign inner ih =>
    exact hbase.trans (((Covers.token l ls).trans (ih (.refl ls))).node _)
  | @stray l rest visible starts right => exact hbase.trans ((Covers.token l rest).node _)
  | stop weaker => exact hbase
  | @operation power left ls op after low high ts mid out rest next binds strong right more ihr ihm =>
    have hlead := Covers.upTo next
    have hright := (Covers.token op after).trans (ihr (.refl after))
    exact ihm (((hbase.trans hlead).trans hright).node _)

/-- The items of a text hold its lexemes, all of them and in order. -/
theorem Items.covers {ls : List (Lexeme Symbol)} {ts : List Tree} (h : Items ls ts) : Covers ls ts [] := by
  induction h with
  | @done ls ends =>
    exact .upTo (pending_eq_nil_of_next? ends)
  | @expression ls s ts rest us next starts item items ih =>
    exact ((Covers.leading ls).trans (item.covers (.refl _))).trans ih
  | @stray ls l rest us next starts items ih =>
    exact (Covers.upTo next).trans (((Covers.token l rest).node _).trans ih)

section
variable {p q : Parser} {l : Lexeme Symbol} {rest : List (Lexeme Symbol)} {ts : List Tree}

lemma adds_missing (hp : p.Live) : p.Adds [gap] (missing p) := by
  have h := (hp.start .error).adds_self
  exact h.node hp

lemma adds_errorBump (hp : p.Live) (h : pending p.rest = l :: rest) :
    p.Adds ((leading p.rest).map tree ++ [.node Symbol.error.kind [l.tree]]) (errorBump p) ∧
      (errorBump p).rest = rest :=
  hp.bumpInto h .error

lemma adds_expect (hp : p.Live) :
    p.Adds (closing p.rest).1 (expect .rightParen p) ∧ (expect .rightParen p).rest = (closing p.rest).2 :=
  hp.ifNext .rightParen (fun _ _ h => hp.bump h) ⟨adds_missing hp, rfl⟩

/-- The parser reads expressions of every power off these lexemes by the rules. -/
def Follows (p : Parser) : Prop :=
  ∀ power, ∃ ts, Reads (.expression power) p.rest ts (expression power p).val.rest ∧
    p.Adds ts (expression power p).val

/-- A node that takes one lexeme and then an expression. -/
lemma follows_bump_start (hp : p.Live) (hpend : pending p.rest = l :: rest) (hlead : leading p.rest = [])
    (ih : ∀ q : Parser, q.Live → q.rest.length ≤ rest.length → Follows q) (s : Symbol) (power : Nat) :
    ∃ ts, Reads (.expression power) rest ts (expression power (p.start s).bump).val.rest ∧
      (p.start s).Adds (l.tree :: ts) (expression power (p.start s).bump).val := by
  obtain ⟨hadds, hrest⟩ := (hp.start s).bump hpend
  rw [show (p.start s).rest = p.rest from rfl, hlead] at hadds
  obtain ⟨ts, hreads, hts⟩ := ih _ (hadds.live (hp.start s)) (Nat.le_of_eq (by rw [hrest])) power
  rw [hrest] at hreads
  exact ⟨ts, hreads, hadds.trans hts⟩

/-- An operand is read by the rules, if shorter expressions are. Without one only a gap is marked. -/
lemma operand_follows (hp : p.Live) (hpend : pending p.rest = p.rest)
    (ih : ∀ q : Parser, q.Live → q.rest.length < p.rest.length → Follows q) :
    ((operand p).val.1 = true ∧ ∃ ts, Reads .operand p.rest ts (operand p).val.2.rest ∧
      p.Adds ts (operand p).val.2) ∨
    ((operand p).val.1 = false ∧ (next? p.rest = none ∨ next? p.rest = some .rightParen) ∧
      (operand p).val.2.rest = p.rest ∧ p.Adds [gap] (operand p).val.2) := by
  rw [operand_val, hp.peek]
  cases hn : next? p.rest with
  | none => exact .inr ⟨rfl, .inl rfl, rfl, adds_missing hp⟩
  | some s =>
    obtain ⟨l, rest, hl, hs⟩ := pending_eq_of_next? hn
    have hlead := leading_of_pending_eq hpend
    have hrest : p.rest = l :: rest := hpend.symm.trans hl
    have hbump := hp.bump hl
    have herror := adds_errorBump hp hl
    have hnode := follows_bump_start hp hl hlead
      (fun q hq hlen => ih q hq (by rw [hrest]; exact Nat.lt_succ_of_le hlen))
    rw [hlead] at hbump herror
    have hvisible := not_trivia_of_pending hl
    rw [hrest]
    cases s with
    | number => exact .inl ⟨rfl, _, hbump.2 ▸ .atom (.inl hs), hbump.1⟩
    | ident => exact .inl ⟨rfl, _, hbump.2 ▸ .atom (.inr hs), hbump.1⟩
    | leftParen =>
      obtain ⟨ts, hreads, hadds⟩ := hnode .parens 0
      obtain ⟨hclose, hr⟩ := adds_expect (hadds.live (hp.start .parens))
      refine .inl ⟨rfl, _, ?_, (hadds.trans hclose).node hp⟩
      exact hr.symm ▸ .parens hs hreads
    | plus =>
      obtain ⟨ts, hreads, hadds⟩ := hnode .signed signPower
      exact .inl ⟨rfl, _, .signed (.inl hs) hreads, hadds.node hp⟩
    | minus =>
      obtain ⟨ts, hreads, hadds⟩ := hnode .signed signPower
      exact .inl ⟨rfl, _, .signed (.inr hs) hreads, hadds.node hp⟩
    | rightParen => exact .inr ⟨rfl, .inr rfl, hrest, adds_missing hp⟩
    | _ =>
      refine .inl ⟨rfl, _, ?_, herror.1⟩
      exact herror.2 ▸ .stray hvisible (by rw [hs]; rfl) (by rw [hs]; decide)

/-- Operators after what `q` has added since `p` are read by the rules, if expressions over at most
`n` lexemes are. The checkpoint stands at `p`, so every round wraps all that was added since. -/
lemma operations_follow (n : Nat) (ih : ∀ q : Parser, q.Live → q.rest.length < n → Follows q) (power : Nat)
    (hp : p.Live) (h : p.Adds ts q) (hq : q.rest.length ≤ n) :
    ∃ out, Reads (.operations power ts) q.rest out
        (operations power p.builder.checkpoint q).val.rest ∧
      p.Adds out (operations power p.builder.checkpoint q).val := by
  induction hlen : q.rest.length using Nat.strong_induction_on generalizing q ts with
  | _ m ihm =>
    have hlive := h.live hp
    rw [operations_val, hlive.peek]
    cases hb : (next? q.rest).bind bindingPower? with
    | none => exact ⟨ts, .stop (by simp [Weaker, hb]), h⟩
    | some powers =>
      obtain ⟨low, high⟩ := powers
      by_cases hweak : low < power
      · simp only [if_pos hweak]
        refine ⟨ts, .stop ?_, h⟩
        rintro low' high' hb'
        rw [hb] at hb'
        cases hb'
        exact hweak
      · simp only [if_neg hweak]
        obtain ⟨s, hn, hs⟩ := Option.bind_eq_some_iff.mp hb
        obtain ⟨op, after, hpend, rfl⟩ := pending_eq_of_next? hn
        have hshort : after.length < q.rest.length := by
          have := length_pending_le q.rest
          rw [hpend, List.length_cons] at this
          omega
        have hwrap := h.startAt hp .binary
        obtain ⟨hbump, hrest⟩ := hwrap.bump hpend
        obtain ⟨us, hright, hadds⟩ := ih _ (hbump.live hwrap) (by rw [hrest]; omega) high
        have hle := hadds.length_rest_le (hbump.live hwrap) (expression high _).property
        rw [hrest] at hright hle
        have hnode := h.wrap hp (hbump.trans hadds)
        have hlt := Nat.lt_of_le_of_lt hle hshort
        obtain ⟨out, hmore, hout⟩ := ihm _ (hlen ▸ hlt) hnode (Nat.le_trans (Nat.le_of_lt hlt) hq) rfl
        refine ⟨out, ?_, hout⟩
        refine .operation hpend hs (Nat.le_of_not_lt hweak) hright ?_
        simp only [List.append_assoc, List.singleton_append] at hmore ⊢
        exact hmore

theorem follows (hp : p.Live) : Follows p := by
  induction hlen : p.rest.length using Nat.strong_induction_on generalizing p with
  | _ n ih =>
    intro power
    obtain ⟨hadds, hrest⟩ := hp.eatTrivia
    have hlive := hadds.live hp
    have hle := length_pending_le p.rest
    have hih : ∀ q : Parser, q.Live → q.rest.length < n → Follows q :=
      fun q hq hlt => ih _ hlt hq rfl
    rw [expression_val]
    rcases operand_follows hlive (by rw [hrest, pending_pending])
      (fun q hq hlt => hih q hq (by rw [hrest] at hlt; omega)) with
      ⟨hfound, ts, hoperand, hts⟩ | ⟨hfound, hends, hr, hgap⟩
    · rw [if_pos hfound]
      have hshort := hts.length_rest_le hlive (operand p.eatTrivia).property.1
      rw [hrest] at hshort
      obtain ⟨out, hmore, hout⟩ := operations_follow n hih power hlive hts (by omega)
      rw [hrest] at hoperand
      exact ⟨_, .expression hoperand hmore, hadds.trans hout⟩
    · rw [if_neg (by simp [hfound]), hr, hrest]
      rw [hrest, next?_pending] at hends
      exact ⟨_, .gap hends, hadds.trans hgap⟩

/-- The parser reads what it is given to the end, by the rules. -/
theorem expressions_follow (hp : p.Live) : ∃ ts, Items p.rest ts ∧ p.Adds ts (expressions p) := by
  fun_induction expressions p with
  | case1 p h =>
    obtain ⟨hadds, hrest⟩ := hp.eatTrivia
    rw [(hadds.live hp).peek, hrest, next?_pending] at h
    exact ⟨_, .done h, hadds⟩
  | case2 p s h ih =>
    obtain ⟨hadds, hrest⟩ := hp.eatTrivia
    have hlive := hadds.live hp
    rw [hlive.peek, hrest, next?_pending] at h
    unfold item at ih ⊢
    by_cases hs : startsOperand s = true
    · rw [if_pos hs] at ih ⊢
      obtain ⟨ts, hreads, hts⟩ := follows hlive 0
      obtain ⟨us, hitems, hus⟩ := ih (hts.live hlive)
      rw [hrest] at hreads
      exact ⟨_, .expression h hs hreads hitems, (hadds.trans hts).trans hus⟩
    · rw [if_neg hs] at ih ⊢
      obtain ⟨l, rest, hl, rfl⟩ := pending_eq_of_next? h
      obtain ⟨herror, hr⟩ := adds_errorBump hlive (by rw [hrest, pending_pending, hl])
      have hlead : leading p.eatTrivia.rest = [] := by
        rw [hrest]
        exact leading_of_pending_eq (pending_pending p.rest)
      rw [hlead] at herror
      obtain ⟨us, hitems, hus⟩ := ih (herror.live hlive)
      rw [hr] at hitems
      exact ⟨_, .stray hl (by simpa using hs) hitems, hadds.trans (herror.trans hus)⟩

/-- Without a cancellation every text has a tree: a root over the items of the text. The cache was asked
for everything in it. -/
theorem parse_never (src : Bytes) (cache : Cache) :
    ∃ ts, Items (lex src) ts ∧ parse src cache .never =
      ⟨.ok (.node Symbol.root.kind ts), (cache.serve (Tree.node Symbol.root.kind ts).subtrees).2, .never⟩ := by
  obtain ⟨ts, hitems, hadds⟩ := expressions_follow (Feed.live_root .root (lex src) cache)
  exact ⟨ts, hitems, hadds.outcome "calc"⟩

theorem parse_items (src : Bytes) (cache : Cache) :
    ∃ ts, Items (lex src) ts ∧ (parse src cache .never).result = .ok (.node Symbol.root.kind ts) := by
  obtain ⟨ts, hitems, hparse⟩ := parse_never src cache
  exact ⟨ts, hitems, congrArg Parsed.result hparse⟩

end

end LosslessTree.Calc
