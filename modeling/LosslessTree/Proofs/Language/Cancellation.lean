import LosslessTree.Proofs.Language.Feed

/-! Parsing until a check says to stop. Beside a parser that nobody cancels runs one of whose checks only
the first few pass. Up to the first check that fails both do the same; from there on the second takes no
lexeme and asks for no token. -/
namespace LosslessTree

/-- The cache was asked for these tokens, in this order, and maybe for nodes between them. -/
def Builder.Requested (base : Cache) (tokens : List Tree) (b : Builder) : Prop :=
  ∃ requests, b.cache = (base.serve requests).2 ∧ requests.filter Tree.isToken = tokens

namespace Builder.Requested

variable {base : Cache} {tokens : List Tree} {b : Builder}

/-- Only the cache matters. -/
lemma of_cache {c : Builder} (h : b.Requested base tokens) (hc : c.cache = b.cache) :
    c.Requested base tokens := by
  obtain ⟨requests, hcache, htokens⟩ := h
  exact ⟨requests, hc.trans hcache, htokens⟩

lemma start (h : b.Requested base tokens) (k : Kind) : (b.start k).Requested base tokens := by
  apply h.of_cache
  unfold Builder.start
  split <;> rfl

lemma startAt (h : b.Requested base tokens) (cp : Checkpoint) (k : Kind) :
    (b.startAt cp k).Requested base tokens := by
  apply h.of_cache
  unfold Builder.startAt
  split_ifs <;> rfl

/-- Closing a node asks for no token. -/
lemma finishNode (h : b.Requested base tokens) : b.finishNode.Requested base tokens := by
  by_cases hfail : b.failure.isSome = true
  · apply h.of_cache
    rw [Builder.finishNode, if_pos hfail]
  · cases ho : b.opened with
    | nil =>
      apply h.of_cache
      simp [Builder.finishNode, hfail, ho, Builder.fail]
    | cons top rest =>
      obtain ⟨requests, hcache, htokens⟩ := h
      have hnone : b.failure = none := by simpa using hfail
      let children := (b.elements.extract top.start b.elements.size).toList
      refine ⟨requests ++ [.node top.kind children], ?_, ?_⟩
      · rw [Builder.finishNode_of_ok hnone ho, Cache.serve_append, ← hcache]
        rfl
      · rw [List.filter_append, htokens]
        exact List.append_nil _

lemma token (h : b.Requested base tokens) (hb : b.failure = none) (ho : b.opened ≠ []) (k : Kind)
    (text : Bytes) : (b.token k text).Requested base (tokens ++ [.token k text]) := by
  obtain ⟨requests, hcache, htokens⟩ := h
  refine ⟨requests ++ [.token k text], ?_, ?_⟩
  · rw [Builder.token_of_ok hb ho, Cache.serve_append, ← hcache]
    rfl
  · rw [List.filter_append, htokens]
    rfl

end Builder.Requested

namespace Feed
open Lexeme

/-- A parse of some lexemes on a cache, of whose checks for cancellation the first `passing` pass. -/
structure Limit (σ : Type) where
  cache : Cache
  lexemes : List (Lexeme σ)
  passing : Nat

namespace Limit

variable {σ : Type} {limit : Limit σ} {p q : Feed σ} {f g : Feed σ → Feed σ}

/-- The number of the lexeme whose feeding fails, counted from one. -/
def deadline (limit : Limit σ) : Nat := checkInterval * (limit.passing + 1)

/-- The same parser with the checks that are left to it after those it has made. -/
def on (limit : Limit σ) (q : Feed σ) : Feed σ :=
  { q with cancellation := .after (limit.passing - q.fed / checkInterval) }

/-- The check before lexeme `m + 1` fails exactly if this is the lexeme of the deadline. -/
lemma due_iff {m : Nat} (hle : m + 1 ≤ limit.deadline) (hm : (m + 1) % checkInterval = 0) :
    limit.passing - m / checkInterval = 0 ↔ m + 1 = limit.deadline := by
  unfold deadline checkInterval at *
  omega

/-- What is left of the checks after one that passed. -/
lemma left_of_check {m : Nat} (hm : (m + 1) % checkInterval = 0) :
    limit.passing - m / checkInterval - 1 = limit.passing - (m + 1) / checkInterval := by
  unfold checkInterval at *
  omega

lemma left_of_no_check {m : Nat} (hm : (m + 1) % checkInterval ≠ 0) :
    m / checkInterval = (m + 1) / checkInterval := by
  unfold checkInterval at *
  omega

lemma peek_on [Symbols σ] (limit : Limit σ) (q : Feed σ) : (limit.on q).peek = q.peek := rfl

variable [Symbols σ]

/-- A parser that nobody cancels, before the check that would fail. It has fed the first lexemes, as many as
it has counted. -/
structure OnTime (limit : Limit σ) (q : Feed σ) : Prop where
  live : q.Live
  ahead : q.rest = limit.lexemes.drop q.fed
  bounded : q.fed ≤ limit.lexemes.length
  requested : q.builder.Requested limit.cache ((limit.lexemes.take q.fed).map tree)
  early : q.fed < limit.deadline

/-- A parser that was cancelled at the deadline. -/
structure Stopped (limit : Limit σ) (p : Feed σ) : Prop where
  cancelled : p.cancelled = true
  late : limit.deadline ≤ limit.lexemes.length
  requested : p.builder.Requested limit.cache ((limit.lexemes.take (limit.deadline - 1)).map tree)

/-- What became of the limited parser where the other one is at `q`. -/
def Shadow (limit : Limit σ) (p q : Feed σ) : Prop :=
  (limit.OnTime q ∧ p = limit.on q) ∨ limit.Stopped p

/-- What a step of a parser does: it adds trees; a parser that was stopped stays so; and the limited parser
follows the other one until it is stopped. -/
structure Steady (limit : Limit σ) (f : Feed σ → Feed σ) : Prop where
  adds : ∀ q : Feed σ, q.Live → ∃ ts, q.Adds ts (f q)
  stopped : ∀ p, limit.Stopped p → limit.Stopped (f p)
  onTime : ∀ q, limit.OnTime q → limit.Shadow (f (limit.on q)) (f q)

lemma OnTime.shadow (h : limit.OnTime q) : limit.Shadow (limit.on q) q := .inl ⟨h, rfl⟩

/-- What comes after a step may look at the parser that is on time only. -/
lemma Shadow.step (h : limit.Shadow p q) (hstopped : ∀ p, limit.Stopped p → limit.Stopped (f p))
    (honTime : limit.OnTime q → limit.Shadow (f (limit.on q)) (g q)) : limit.Shadow (f p) (g q) := by
  rcases h with ⟨hq, rfl⟩ | hp
  · exact honTime hq
  · exact .inr (hstopped p hp)

lemma Steady.shadow (hf : limit.Steady f) (h : limit.Shadow p q) : limit.Shadow (f p) (f q) :=
  h.step hf.stopped (hf.onTime q)

lemma steady_id : limit.Steady fun p => p :=
  ⟨fun _ hq => ⟨[], hq.adds_self⟩, fun _ hp => hp, fun _ hq => hq.shadow⟩

lemma Steady.comp (hg : limit.Steady g) (hf : limit.Steady f) : limit.Steady fun p => g (f p) := by
  refine ⟨?_, fun p hp => hg.stopped _ (hf.stopped p hp), fun q hq => hg.shadow (hf.onTime q hq)⟩
  intro q hq
  obtain ⟨ts, hts⟩ := hf.adds q hq
  obtain ⟨us, hus⟩ := hg.adds _ (hts.live hq)
  exact ⟨ts ++ us, hts.trans hus⟩

/-- A choice by the next symbol. A stopped parser sees none, so it may take the other way than the one on
time does; both ways keep it stopped. -/
lemma Steady.choose {c : Option σ → Prop} [DecidablePred c] (hf : limit.Steady f) (hg : limit.Steady g) :
    limit.Steady fun p => if c p.peek then f p else g p := by
  refine ⟨fun q hq => ?_, fun p hp => ?_, fun q hq => ?_⟩
  · by_cases hc : c q.peek
    · simpa only [if_pos hc] using hf.adds q hq
    · simpa only [if_neg hc] using hg.adds q hq
  · by_cases hc : c p.peek
    · simpa only [if_pos hc] using hf.stopped p hp
    · simpa only [if_neg hc] using hg.stopped p hp
  · rw [peek_on]
    by_cases hc : c q.peek
    · simpa only [if_pos hc] using hf.onTime q hq
    · simpa only [if_neg hc] using hg.onTime q hq

lemma Stopped.start (hp : limit.Stopped p) (s : σ) : limit.Stopped (p.start s) :=
  ⟨hp.cancelled, hp.late, hp.requested.start _⟩

lemma Stopped.finish (hp : limit.Stopped p) : limit.Stopped p.finish :=
  ⟨hp.cancelled, hp.late, hp.requested.finishNode⟩

/-- A stopped parser sees the end of the text. -/
lemma Stopped.peek (hp : limit.Stopped p) : p.peek = none := by
  rw [Feed.peek, if_pos hp.cancelled]

lemma OnTime.start (hq : limit.OnTime q) (s : σ) : limit.OnTime (q.start s) :=
  ⟨hq.live.start s, hq.ahead, hq.bounded, hq.requested.start _, hq.early⟩

lemma OnTime.startAt (hq : limit.OnTime q) {cp : Checkpoint} {s : σ} (hlive : (q.startAt cp s).Live) :
    limit.OnTime (q.startAt cp s) :=
  ⟨hlive, hq.ahead, hq.bounded, hq.requested.startAt _ _, hq.early⟩

lemma Shadow.finish (h : limit.Shadow p q) (hlive : q.finish.Live) : limit.Shadow p.finish q.finish := by
  rcases h with ⟨hq, rfl⟩ | hp
  · exact .inl ⟨⟨hlive, hq.ahead, hq.bounded, hq.requested.finishNode, hq.early⟩, rfl⟩
  · exact .inr hp.finish

/-- A node opened, filled and closed. -/
lemma Steady.node (hf : limit.Steady f) (s : σ) : limit.Steady fun p => (f (p.start s)).finish := by
  have hadds : ∀ q : Feed σ, q.Live → ∃ ts, q.Adds ts (f (q.start s)).finish := by
    intro q hq
    obtain ⟨ts, hts⟩ := hf.adds _ (hq.start s)
    exact ⟨_, hts.node hq⟩
  refine ⟨hadds, fun p hp => (hf.stopped _ (hp.start s)).finish, fun q hq => ?_⟩
  obtain ⟨ts, hts⟩ := hadds q hq.live
  exact (hf.onTime _ (hq.start s)).finish (hts.live hq.live)

variable {l : Lexeme σ} {rest : List (Lexeme σ)}

/-- What is next on time is the lexeme whose number is one more than was counted. -/
lemma OnTime.next (hq : limit.OnTime q) (hr : q.rest = l :: rest) :
    ∃ hlt : q.fed < limit.lexemes.length, limit.lexemes[q.fed] = l ∧ limit.lexemes.drop (q.fed + 1) = rest := by
  have hdrop := hq.ahead
  rw [hr] at hdrop
  have hlt : q.fed < limit.lexemes.length := by
    apply Nat.lt_of_not_le
    intro hle
    rw [List.drop_of_length_le hle] at hdrop
    cases hdrop
  rw [List.drop_eq_getElem_cons hlt] at hdrop
  obtain ⟨hl, hrest⟩ := List.cons.inj hdrop
  exact ⟨hlt, hl.symm, hrest.symm⟩

/-- A check that fails stops the parser before the lexeme is taken. -/
lemma feed_of_due (hc : q.cancelled = false) (hr : q.rest = l :: rest)
    (hcheck : (q.fed + 1) % checkInterval = 0) (hdue : q.cancellation.isDue = true) :
    q.feed = { q with fed := q.fed + 1, cancellation := q.cancellation.next, cancelled := true } := by
  simp [Feed.feed, hc, hr, hcheck, hdue]

lemma feed_of_passed (hc : q.cancelled = false) (hr : q.rest = l :: rest)
    (hcheck : (q.fed + 1) % checkInterval = 0) (hdue : q.cancellation.isDue = false) :
    q.feed = { q with
      fed := q.fed + 1, cancellation := q.cancellation.next, rest := rest,
      builder := q.builder.token (Symbols.kind l.symbol) l.text } := by
  simp [Feed.feed, hc, hr, hcheck, hdue]

lemma feed_of_no_check (hc : q.cancelled = false) (hr : q.rest = l :: rest)
    (hcheck : (q.fed + 1) % checkInterval ≠ 0) :
    q.feed = { q with
      fed := q.fed + 1, rest := rest, builder := q.builder.token (Symbols.kind l.symbol) l.text } := by
  simp [Feed.feed, hc, hr, hcheck]

/-- Before the deadline the parser that nobody cancels takes the next lexeme on time. -/
lemma OnTime.feed (hq : limit.OnTime q) (hr : q.rest = l :: rest) (hearly : q.fed + 1 < limit.deadline) :
    limit.OnTime q.feed ∧ q.feed = { q with
      fed := q.fed + 1, rest := rest, builder := q.builder.token (Symbols.kind l.symbol) l.text } := by
  have hlive := hq.live
  have hfeed : q.feed = { q with
      fed := q.fed + 1, rest := rest, builder := q.builder.token (Symbols.kind l.symbol) l.text } := by
    by_cases hcheck : (q.fed + 1) % checkInterval = 0
    · have hdue : q.cancellation.isDue = false := by rw [hlive.never]; rfl
      have hnext : q.cancellation.next = q.cancellation := by rw [hlive.never]; rfl
      rw [feed_of_passed hlive.running hr hcheck hdue, hnext]
    · exact feed_of_no_check hlive.running hr hcheck
  obtain ⟨hlt, hl, hrest⟩ := hq.next hr
  have hadds := (hlive.feed hr).1
  have htoken := hq.requested.token hlive.accepted hlive.inside (Symbols.kind l.symbol) l.text
  refine ⟨?_, hfeed⟩
  rw [hfeed] at hadds ⊢
  refine ⟨hadds.live hlive, hrest.symm, hlt, ?_, hearly⟩
  rw [← List.take_append_getElem hlt, List.map_append, hl]
  exact htoken

omit [Symbols σ] in
lemma isDue_on : (limit.on q).cancellation.isDue = true ↔ limit.passing - q.fed / checkInterval = 0 := by
  simp [on, Cancellation.isDue, Cancellation.after]

/-- The limited parser takes the same lexeme before the deadline. -/
lemma OnTime.feed_on (hq : limit.OnTime q) (hr : q.rest = l :: rest) (hearly : q.fed + 1 ≠ limit.deadline) :
    (limit.on q).feed = limit.on q.feed := by
  have hrunning : (limit.on q).cancelled = false := hq.live.running
  have hr' : (limit.on q).rest = l :: rest := hr
  have hfeed := (hq.feed hr (Nat.lt_of_le_of_ne hq.early hearly)).2
  by_cases hcheck : (q.fed + 1) % checkInterval = 0
  · have hpass : (limit.on q).cancellation.isDue = false := by
      rw [← Bool.not_eq_true, isDue_on, due_iff hq.early hcheck]
      exact hearly
    rw [feed_of_passed hrunning hr' hcheck hpass, hfeed]
    simp only [on, Cancellation.next, Cancellation.after, Option.map_some, left_of_check hcheck]
  · rw [feed_of_no_check hrunning hr' hcheck, hfeed]
    simp only [on, left_of_no_check hcheck]

/-- It is stopped at the deadline. -/
lemma OnTime.stopped_feed (hq : limit.OnTime q) (hr : q.rest = l :: rest) (hlast : q.fed + 1 = limit.deadline) :
    limit.Stopped (limit.on q).feed := by
  have hrunning : (limit.on q).cancelled = false := hq.live.running
  have hr' : (limit.on q).rest = l :: rest := hr
  have hcheck : (q.fed + 1) % checkInterval = 0 := by rw [hlast, deadline, Nat.mul_mod_right]
  have hdue : (limit.on q).cancellation.isDue = true := isDue_on.mpr ((due_iff hq.early hcheck).mpr hlast)
  obtain ⟨hfed, -, -⟩ := hq.next hr
  rw [feed_of_due hrunning hr' hcheck hdue]
  refine ⟨rfl, hlast ▸ hfed, ?_⟩
  rw [← hlast, Nat.add_sub_cancel]
  exact hq.requested

/-- Feeding takes the next lexeme, or stops the parser if this is the lexeme of the deadline. -/
lemma steady_feed : limit.Steady Feed.feed := by
  have hend : ∀ p : Feed σ, p.rest = [] → p.feed = p := by
    intro p hp
    simp [Feed.feed, hp]
  refine ⟨fun q hq => ?_, fun p hp => ?_, fun q hq => ?_⟩
  · cases hr : q.rest with
    | nil =>
      rw [hend q hr]
      exact ⟨[], hq.adds_self⟩
    | cons l rest => exact ⟨_, (hq.feed hr).1⟩
  · have hf : p.feed = p := by rw [Feed.feed, if_pos hp.cancelled]
    rwa [hf]
  · cases hr : q.rest with
    | nil =>
      rw [hend q hr, hend (limit.on q) hr]
      exact hq.shadow
    | cons l rest =>
      by_cases hlast : q.fed + 1 = limit.deadline
      · exact .inr (hq.stopped_feed hr hlast)
      · exact .inl ⟨(hq.feed hr (Nat.lt_of_le_of_ne hq.early hlast)).1, hq.feed_on hr hlast⟩

lemma steady_feedTrivia (ahead : List (Lexeme σ)) : limit.Steady (Feed.feedTrivia ahead) := by
  induction ahead with
  | nil => exact steady_id
  | cons l ahead ih =>
    by_cases ht : Symbols.isTrivia l.symbol = true
    · have hmore := ih.comp steady_feed
      have hrun : ∀ p : Feed σ, p.cancelled = false → p.feedTrivia (l :: ahead) = p.feed.feedTrivia ahead := by
        intro p hp
        simp [Feed.feedTrivia, hp, ht]
      refine ⟨fun q hq => ?_, fun p hp => ?_, fun q hq => ?_⟩
      · rw [hrun q hq.running]
        exact hmore.adds q hq
      · have hf : p.feedTrivia (l :: ahead) = p := by simp [Feed.feedTrivia, hp.cancelled]
        rwa [hf]
      · rw [hrun q hq.live.running, hrun (limit.on q) hq.live.running]
        exact hmore.onTime q hq
    · have hf : Feed.feedTrivia (l :: ahead) = fun p : Feed σ => p := by
        funext p
        simp [Feed.feedTrivia, ht]
      rw [hf]
      exact steady_id

lemma steady_eatTrivia : limit.Steady Feed.eatTrivia := by
  have hsteady : ∀ ahead, limit.Steady (Feed.feedTrivia ahead) := steady_feedTrivia
  exact ⟨fun q hq => (hsteady q.rest).adds q hq, fun p hp => (hsteady p.rest).stopped p hp,
    fun q hq => (hsteady q.rest).onTime q hq⟩

lemma steady_bump : limit.Steady Feed.bump := steady_feed.comp steady_eatTrivia

/-- Nothing is left to feed: the deadline was not reached, and every check so far has passed. -/
lemma OnTime.all_fed (hq : limit.OnTime q) (hend : q.rest = []) :
    q.fed = limit.lexemes.length ∧ limit.lexemes.length / checkInterval ≤ limit.passing := by
  have hdrop := hq.ahead
  rw [hend] at hdrop
  have hfed : q.fed = limit.lexemes.length :=
    Nat.le_antisymm hq.bounded (List.drop_eq_nil_iff.mp hdrop.symm)
  have hearly := hq.early
  rw [hfed] at hearly
  exact ⟨hfed, Nat.le_of_lt_succ (Nat.div_lt_of_lt_mul hearly)⟩

end Limit
end Feed

/-- What a parse comes to whose first `n` checks pass, if it makes so many checks when nobody cancels it: it
is cancelled exactly if one of them fails, and else it ends as it would without them, with a tree. -/
structure AllOrNothing (language : String) (checks : Nat) (parse : Cancellation → Parsed) (n : Nat) : Prop where
  cancelled_iff : (parse (.after n)).result = .error (.cancelled language) ↔ n < checks
  complete : checks ≤ n → (∃ tree, (parse .never).result = .ok tree) ∧
    parse (.after n) = { parse .never with cancellation := .after (n - checks) }

/-- A parse that checks before every 256th lexeme and nowhere else. If one of the checks fails, it has asked
for exactly the tokens before the lexeme of that check. -/
structure ChecksLexemes {σ : Type} [Symbols σ] (language : String) (lexemes : List (Lexeme σ)) (base : Cache)
    (parse : Cancellation → Parsed) (n : Nat) : Prop
    extends AllOrNothing language (lexemes.length / checkInterval) parse n where
  requested : n < lexemes.length / checkInterval → ∃ requests,
    (parse (.after n)).cache = (base.serve requests).2 ∧
      requests.filter Tree.isToken = (lexemes.take (checkInterval * (n + 1) - 1)).map Lexeme.tree

namespace Feed.Limit

variable {σ : Type} [Symbols σ] {limit : Limit σ} {p q : Feed σ}

/-- The limited parser at the end of the text is cancelled or has done all that the other has. -/
theorem Shadow.checksLexemes (h : limit.Shadow p q) (hend : q.rest = []) {language : String} {tree : Tree}
    (hok : (q.outcome language).result = .ok tree) {parse : Cancellation → Parsed}
    (hp : parse (.after limit.passing) = p.outcome language) (hq : parse .never = q.outcome language) :
    ChecksLexemes language limit.lexemes limit.cache parse limit.passing := by
  rcases h with ⟨honTime, rfl⟩ | hstopped
  · obtain ⟨hfed, hle⟩ := honTime.all_fed hend
    have hsame : parse (.after limit.passing) =
        { parse .never with cancellation := .after (limit.passing - limit.lexemes.length / checkInterval) } := by
      rw [hp, hq, ← hfed]
      rfl
    refine ⟨⟨?_, fun _ => ⟨⟨tree, hq ▸ hok⟩, hsame⟩⟩, fun hlt => absurd hlt (Nat.not_lt_of_le hle)⟩
    have hresult : (parse (.after limit.passing)).result = .ok tree := by rw [hsame, hq, hok]
    rw [hresult]
    refine ⟨fun h => ?_, fun hlt => absurd hlt (Nat.not_lt_of_le hle)⟩
    cases h
  · have hlt : limit.passing < limit.lexemes.length / checkInterval := by
      have hlate := hstopped.late
      unfold deadline checkInterval at hlate
      unfold checkInterval
      omega
    have hresult : (parse (.after limit.passing)).result = .error (.cancelled language) := by
      rw [hp, Feed.outcome]
      simp [hstopped.cancelled]
    obtain ⟨requests, hcache, htokens⟩ := hstopped.finish.requested
    refine ⟨⟨⟨fun _ => hlt, fun _ => hresult⟩, fun hle => absurd hlt (Nat.not_lt_of_le hle)⟩,
      fun _ => ⟨requests, ?_, htokens⟩⟩
    rw [hp]
    exact hcache

lemma onTime_root (s : σ) (lexemes : List (Lexeme σ)) (cache : Cache) (n : Nat) :
    OnTime ⟨cache, lexemes, n⟩ (root s lexemes cache) :=
  ⟨live_root s lexemes cache, rfl, Nat.zero_le _, ⟨[], rfl, rfl⟩, Nat.mul_pos (by decide) (Nat.succ_pos n)⟩

lemma on_root (s : σ) (lexemes : List (Lexeme σ)) (cache : Cache) (n : Nat) :
    on ⟨cache, lexemes, n⟩ (root s lexemes cache) =
      ({ rest := lexemes, builder := { cache := cache }, cancellation := .after n } : Feed σ).start s := by
  simp [on, root, Feed.start]

end Feed.Limit
end LosslessTree
