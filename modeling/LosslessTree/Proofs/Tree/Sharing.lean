import LosslessTree.Proofs.Tree.Fidelity

/-! Sessions that share a cache. A call asks the cache for at most one element, so calls are the steps
in which sessions can take turns. What a session builds and asks for does not depend on what the cache
holds; hence every way of taking turns makes the same requests, only in another order. -/
namespace LosslessTree
namespace Builder

def withCache (b : Builder) (c : Cache) : Builder := { b with cache := c }

/-- Whether a checkpoint fits does not depend on the cache. -/
lemma startAt_withCache (b : Builder) (c : Cache) (cp : Checkpoint) (k : Kind) :
    (b.withCache c).startAt cp k = (b.startAt cp k).withCache c := by
  simp only [startAt, apply_ite (withCache · c)]
  rfl

end Builder

namespace BuildSession

/-- The session with another cache behind its builder. -/
def withCache (s : BuildSession) (c : Cache) : BuildSession := { s with builder := s.builder.withCache c }

/-- What a call asks the cache for. -/
def requests (s : BuildSession) : BuildEvent → List Tree
  | .token k text =>
    if s.builder.failure.isSome || s.builder.opened.isEmpty then [] else [.token k text]
  | .finishNode =>
    if s.builder.failure.isSome then []
    else match s.builder.opened with
      | [] => []
      | top :: _ => [.node top.kind (s.builder.elements.extract top.start s.builder.elements.size).toList]
  | _ => []

/-- What calls ask the cache for, in order. -/
def trace (s : BuildSession) : List BuildEvent → List Tree
  | [] => []
  | e :: events =>
    s.requests e ++ match s.step? e with
      | none => []
      | some t => t.trace events

variable {s t : BuildSession} {e : BuildEvent} {events : List BuildEvent}

lemma requests_withCache (s : BuildSession) (c : Cache) (e : BuildEvent) :
    (s.withCache c).requests e = s.requests e := by
  cases e <;> rfl

/-- A call does the same with every cache, and leaves the cache as its requests do. -/
lemma step?_withCache (s : BuildSession) (c : Cache) (e : BuildEvent) :
    (s.withCache c).step? e = (s.step? e).map (·.withCache (c.serve (s.requests e)).2) := by
  cases e with
  | start k => cases hf : s.builder.failure <;> simp [step?, Builder.start, withCache, Builder.withCache, requests, hf]
  | checkpoint => rfl
  | startAt i k =>
    simp only [step?, withCache, Builder.startAt_withCache, Option.map_map]
    rfl
  | token k text =>
    cases hf : s.builder.failure with
    | some cause => simp [step?, Builder.token, withCache, Builder.withCache, requests, hf]
    | none =>
      cases ho : s.builder.opened with
      | nil => simp [step?, Builder.token, Builder.fail, withCache, Builder.withCache, requests, hf, ho]
      | cons top rest =>
        simp [step?, Builder.token, Cache.internToken_fst, withCache, Builder.withCache, requests, hf, ho, Cache.serve_cons,
          Cache.intern]
  | finishNode =>
    cases hf : s.builder.failure with
    | some cause => simp [step?, Builder.finishNode, withCache, Builder.withCache, requests, hf]
    | none =>
      cases ho : s.builder.opened with
      | nil => simp [step?, Builder.finishNode, Builder.fail, withCache, Builder.withCache, requests, hf, ho]
      | cons top rest =>
        simp [step?, Builder.finishNode, Cache.internNode_fst, withCache, Builder.withCache, requests, hf, ho, Cache.serve_cons,
          Cache.intern]

lemma trace_withCache (s : BuildSession) (c : Cache) (events : List BuildEvent) :
    (s.withCache c).trace events = s.trace events := by
  induction events generalizing s c with
  | nil => rfl
  | cons e events ih =>
    rw [trace, trace, requests_withCache, step?_withCache]
    cases s.step? e with
    | none => rfl
    | some t => exact congrArg (s.requests e ++ ·) (ih t _)

/-- Calls do the same with every cache, and leave the cache as their requests do. -/
theorem run?_withCache (s : BuildSession) (c : Cache) (events : List BuildEvent) :
    (s.withCache c).run? events = (s.run? events).map (·.withCache (c.serve (s.trace events)).2) := by
  induction events generalizing s c with
  | nil => rfl
  | cons e events ih =>
    rw [run?, run?, trace, step?_withCache]
    cases s.step? e with
    | none => rfl
    | some t =>
      simp only [Option.map_some, Option.bind_some, ih, Cache.serve_append]

end BuildSession

open BuildSession

/-- Sessions that share a cache, each with the calls it still has to make. -/
structure Pool where
  cache : Cache
  sessions : List (BuildSession × List BuildEvent)

namespace Pool

/-- One session makes its next call. -/
def step? (p : Pool) (i : Nat) : Option Pool :=
  match p.sessions[i]? with
  | some (s, e :: events) =>
    ((s.withCache p.cache).step? e).map fun t =>
      { cache := t.builder.cache, sessions := p.sessions.set i (t, events) }
  | _ => none

/-- Sessions make their calls in the order of a schedule. -/
def run? (p : Pool) : List Nat → Option Pool
  | [] => some p
  | i :: schedule => (p.step? i).bind fun p => p.run? schedule

/-- New sessions on a cache. -/
def start (c : Cache) (programs : List (List BuildEvent)) : Pool :=
  ⟨c, programs.map fun events => (fresh c #[], events)⟩

/-- A schedule lets every session make all its calls, and no more. -/
def Completes (p : Pool) (schedule : List Nat) : Prop :=
  ∀ i, schedule.count i = ((p.sessions[i]?).map (·.2.length)).getD 0

/-- What the sessions will still ask the cache for. -/
def pending (p : Pool) : List Tree := p.sessions.flatMap fun x => x.1.trace x.2

/-- What the sessions will have built, apart from the cache. -/
def outcomes (p : Pool) : List (Option BuildSession) :=
  p.sessions.map fun x => (x.1.run? x.2).map (·.withCache {})

variable {p q : Pool} {i : Nat} {schedule : List Nat}

lemma step?_eq_some (h : p.step? i = some q) :
    ∃ s e events t, p.sessions[i]? = some (s, e :: events) ∧ s.step? e = some t ∧
      q = ⟨(p.cache.serve (s.requests e)).2,
        p.sessions.set i (t.withCache (p.cache.serve (s.requests e)).2, events)⟩ := by
  unfold step? at h
  split at h
  · next s e events hi =>
    rw [step?_withCache, Option.map_map] at h
    obtain ⟨t, ht, rfl⟩ := Option.map_eq_some_iff.mp h
    exact ⟨s, e, events, t, hi, ht, rfl⟩
  · cases h

/-- What has been asked for is no longer pending, and what will have been built stays the same. -/
structure Served (p : Pool) (made : List Tree) (q : Pool) : Prop where
  cache : q.cache = (p.cache.serve made).2
  pending : p.pending.Perm (made ++ q.pending)
  outcomes : q.outcomes = p.outcomes

lemma step?_served (h : p.step? i = some q) : ∃ made, Served p made q := by
  obtain ⟨s, e, events, t, hi, ht, rfl⟩ := step?_eq_some h
  obtain ⟨hlt, hget⟩ := List.getElem?_eq_some_iff.mp hi
  have hbefore : p.sessions = p.sessions.take i ++ (s, e :: events) :: p.sessions.drop (i + 1) := by
    rw [← hget, List.getElem_cons_drop, List.take_append_drop]
  have hafter (x) : p.sessions.set i x = p.sessions.take i ++ x :: p.sessions.drop (i + 1) := by
    rw [List.set_eq_take_append_cons_drop, if_pos hlt]
  refine ⟨s.requests e, rfl, ?_, ?_⟩
  · have htrace : s.trace (e :: events) = s.requests e ++ t.trace events := by
      simp only [trace, ht]
    rw [pending, pending, hafter]
    conv_lhs => rw [hbefore]
    simp only [List.flatMap_append, List.flatMap_cons, trace_withCache, htrace, List.append_assoc]
    exact List.perm_append_comm_assoc _ _ _
  · have hsame : ((t.withCache (p.cache.serve (s.requests e)).2).run? events).map (·.withCache {}) =
        (s.run? (e :: events)).map (·.withCache {}) := by
      rw [run?_withCache, BuildSession.run?, ht, Option.map_map]
      rfl
    rw [outcomes, outcomes, hafter]
    conv_rhs => rw [hbefore]
    simp only [List.map_append, List.map_cons, hsame]

lemma Served.trans {made more : List Tree} {r : Pool} (h : Served p made q) (h' : Served q more r) :
    Served p (made ++ more) r := by
  refine ⟨?_, ?_, h'.outcomes.trans h.outcomes⟩
  · rw [h'.cache, h.cache, Cache.serve_append]
  · rw [List.append_assoc]
    exact h.pending.trans (h'.pending.append_left made)

lemma run?_served (h : p.run? schedule = some q) : ∃ made, Served p made q := by
  induction schedule generalizing p with
  | nil =>
    cases h
    exact ⟨[], rfl, .refl _, rfl⟩
  | cons i schedule ih =>
    obtain ⟨r, hr, hq⟩ := Option.bind_eq_some_iff.mp h
    obtain ⟨made, hmade⟩ := step?_served hr
    obtain ⟨more, hmore⟩ := ih hq
    exact ⟨made ++ more, hmade.trans hmore⟩

/-- A session that is due can make its next call, and then the rest of the schedule fits. -/
lemma Completes.step (h : p.Completes (i :: schedule)) (hok : ∀ o ∈ p.outcomes, o.isSome = true) :
    ∃ q, p.step? i = some q ∧ q.Completes schedule := by
  have hdue := h i
  rw [List.count_cons_self] at hdue
  cases hi : p.sessions[i]? with
  | none => simp [hi] at hdue
  | some x =>
    obtain ⟨s, _ | ⟨e, events⟩⟩ := x
    · simp [hi] at hdue
    · have hsome := hok _ (List.mem_map_of_mem (List.mem_of_getElem? hi))
      rw [Option.isSome_map, BuildSession.run?] at hsome
      obtain ⟨t, ht⟩ := Option.isSome_iff_exists.mp (Option.isSome_of_isSome_bind hsome)
      refine ⟨⟨(p.cache.serve (s.requests e)).2,
        p.sessions.set i (t.withCache (p.cache.serve (s.requests e)).2, events)⟩, ?_, ?_⟩
      · simp only [step?, hi, step?_withCache, ht, Option.map_some]
        rfl
      intro j
      have hj := h j
      rw [List.count_cons] at hj
      obtain ⟨hlt, -⟩ := List.getElem?_eq_some_iff.mp hi
      by_cases hij : i = j
      · subst hij
        rw [List.getElem?_set_self hlt]
        rw [hi] at hj
        simpa using hj
      · simp only [List.getElem?_set_ne hij]
        simpa [hij] using hj

/-- Every schedule that fits can be run, and after it no session has a call left. -/
lemma Completes.run (h : p.Completes schedule) (hok : ∀ o ∈ p.outcomes, o.isSome = true) :
    ∃ q, p.run? schedule = some q ∧ ∀ x ∈ q.sessions, x.2 = [] := by
  induction schedule generalizing p with
  | nil =>
    refine ⟨p, rfl, ?_⟩
    intro x hx
    obtain ⟨i, hi⟩ := List.mem_iff_getElem?.mp hx
    have hlen := h i
    rw [hi] at hlen
    simpa using hlen.symm
  | cons i schedule ih =>
    obtain ⟨r, hr, hrest⟩ := h.step hok
    obtain ⟨made, hmade⟩ := step?_served hr
    obtain ⟨q, hq, hdone⟩ := ih hrest (hmade.outcomes ▸ hok)
    exact ⟨q, Option.bind_eq_some_iff.mpr ⟨r, hr, hq⟩, hdone⟩

lemma pending_eq_nil (h : ∀ x ∈ p.sessions, x.2 = []) : p.pending = [] := by
  rw [pending, List.flatMap_eq_nil_iff]
  intro x hx
  rw [h x hx]
  rfl

/-- A complete run leaves the cache as one session with all the requests would, but for their order. -/
lemma Completes.run_stats (h : p.Completes schedule) (hok : ∀ o ∈ p.outcomes, o.isSome = true) :
    ∃ q, p.run? schedule = some q ∧ (∀ x ∈ q.sessions, x.2 = []) ∧ q.outcomes = p.outcomes ∧
      q.cache.stats = (p.cache.serve p.pending).2.stats := by
  obtain ⟨q, hq, hdone⟩ := h.run hok
  obtain ⟨made, hmade⟩ := run?_served hq
  have hperm := hmade.pending
  rw [pending_eq_nil hdone, List.append_nil] at hperm
  refine ⟨q, hq, hdone, hmade.outcomes, ?_⟩
  rw [hmade.cache, Cache.stats_serve_of_perm _ hperm]

end Pool

/-- A call sequence, run by itself on an empty cache, ends with this root. -/
def BuildSession.Builds (f : Fingerprint) (events : List BuildEvent) (root : Tree) : Prop :=
  ∃ t, (fresh { fingerprint := f } #[]).run? events = some t ∧ t.builder.finish.1 = .ok root

namespace Pool

/-- New sessions on any cache will build what they build by themselves. -/
lemma outcomes_start {c : Cache} {programs : List (List BuildEvent)} {roots : List Tree}
    (h : List.Forall₂ (Builds c.fingerprint) programs roots) :
    List.Forall₂ (fun o root => ∃ t : BuildSession, o = some t ∧ t.builder.finish.1 = .ok root)
      (start c programs).outcomes roots := by
  rw [outcomes, start, List.map_map, List.forall₂_map_left_iff]
  refine h.imp ?_
  rintro events root ⟨t, ht, hroot⟩
  have hrun := run?_withCache (fresh { fingerprint := c.fingerprint } #[]) c events
  rw [ht, Option.map_some] at hrun
  refine ⟨t.withCache {}, ?_, hroot⟩
  change ((fresh c #[]).run? events).map (·.withCache {}) = _
  rw [show fresh c #[] = (fresh { fingerprint := c.fingerprint } #[]).withCache c from rfl, hrun]
  rfl

/-- Sessions that each build a root when run by themselves on an empty cache build equal roots when they
share one, whatever it holds and however they take turns, and the counters of the shared cache do not
depend on the turns either. -/
theorem interleavings_agree (c : Cache) (programs : List (List BuildEvent)) (roots : List Tree)
    (halone : List.Forall₂ (Builds c.fingerprint) programs roots) :
    ∃ stats : CacheStats, ∀ schedule, (start c programs).Completes schedule →
      ∃ q, (start c programs).run? schedule = some q ∧
        List.Forall₂ (fun x root => x.2 = [] ∧
          ∃ t, x.1.builder.finish.1 = .ok t ∧ t.equal c.fingerprint root = true) q.sessions roots ∧
        q.cache.stats = stats := by
  have houtcomes := outcomes_start halone
  have hok : ∀ o ∈ (start c programs).outcomes, o.isSome = true := by
    refine ((List.forall₂_and_left (R := fun _ _ => True) _ _).mp (houtcomes.imp ?_)).1
    rintro o root ⟨t, rfl, -⟩
    exact ⟨rfl, trivial⟩
  refine ⟨((start c programs).cache.serve (start c programs).pending).2.stats, fun schedule h => ?_⟩
  obtain ⟨q, hq, hdone, hsame, hstats⟩ := h.run_stats hok
  rw [← hsame, outcomes, List.forall₂_map_left_iff] at houtcomes
  refine ⟨q, hq, ((List.forall₂_and_left _ _).mpr ⟨hdone, houtcomes⟩).imp ?_, hstats⟩
  rintro ⟨s, events⟩ root ⟨hnil, t, ht, hroot⟩
  obtain rfl : events = [] := hnil
  obtain rfl : s.withCache {} = t := Option.some.inj ht
  exact ⟨rfl, root, hroot, (Tree.equal_iff _ _ _).mpr rfl⟩

/-- Two sessions with the same calls, on a cache that holds their token: one after the other, and taking
turns. -/
theorem interleavings_agree_twins :
    ∃ q q', (start (Cache.token {} 2 [0x61]) [[.start 1, .token 2 [0x61], .finishNode],
        [.start 1, .token 2 [0x61], .finishNode]]).run? [0, 0, 0, 1, 1, 1] = some q ∧
      (start (Cache.token {} 2 [0x61]) [[.start 1, .token 2 [0x61], .finishNode],
        [.start 1, .token 2 [0x61], .finishNode]]).run? [0, 1, 1, 0, 1, 0] = some q' ∧
      List.Forall₂ (fun x root => x.2 = [] ∧
        ∃ t, x.1.builder.finish.1 = .ok t ∧ t.equal .standard root = true) q'.sessions
        [.node 1 [.token 2 [0x61]], .node 1 [.token 2 [0x61]]] ∧
      q.cache.stats = q'.cache.stats := by
  obtain ⟨stats, hstats⟩ := interleavings_agree (Cache.token {} 2 [0x61])
    [[.start 1, .token 2 [0x61], .finishNode], [.start 1, .token 2 [0x61], .finishNode]]
    [.node 1 [.token 2 [0x61]], .node 1 [.token 2 [0x61]]]
    (.cons ⟨_, rfl, rfl⟩ (.cons ⟨_, rfl, rfl⟩ .nil))
  obtain ⟨q, hq, -, hcount⟩ := hstats [0, 0, 0, 1, 1, 1] (by rintro (_ | _ | i) <;> simp [start])
  obtain ⟨q', hq', hroots, hcount'⟩ := hstats [0, 1, 1, 0, 1, 0] (by rintro (_ | _ | i) <;> simp [start])
  exact ⟨q, q', hq, hq', hroots, hcount.trans hcount'.symm⟩

end Pool
end LosslessTree

/-! The calls that build a given tree: every node is opened, filled and closed. -/
namespace LosslessTree
namespace Tree

mutual
/-- The calls for a tree, in source order. -/
def calls : Tree → List BuildEvent
  | .token k s => [.token k s]
  | .node k cs => .start k :: (callsAll cs ++ [.finishNode])
def callsAll : List Tree → List BuildEvent
  | [] => []
  | c :: cs => c.calls ++ callsAll cs
end

end Tree

namespace BuildSession

variable {s t : BuildSession} {tree : Tree}

lemma run?_append (s : BuildSession) (before after : List BuildEvent) :
    s.run? (before ++ after) = (s.run? before).bind fun t => t.run? after := by
  induction before generalizing s with
  | nil => rfl
  | cons e before ih =>
    rw [List.cons_append, run?, run?, Option.bind_assoc]
    exact congrArg _ (funext ih)

/-- Wherever a tree fits, its calls add it. -/
def Grows (tree : Tree) : Prop :=
  ∀ s : BuildSession, s.builder.failure = none → (tree.isNode = true ∨ s.builder.opened ≠ []) →
    ∃ t, s.run? tree.calls = some t ∧ s.builder.Adds [tree] t.builder

lemma run?_callsAll {cs : List Tree} (ih : ∀ c ∈ cs, Grows c) :
    ∀ s : BuildSession, s.builder.failure = none → s.builder.opened ≠ [] →
      ∃ t, s.run? (Tree.callsAll cs) = some t ∧ s.builder.Adds cs t.builder := by
  induction cs with
  | nil =>
    intro s hs _
    exact ⟨s, rfl, Builder.adds_self hs⟩
  | cons c cs ihs =>
    intro s hs ho
    obtain ⟨hc, hcs⟩ := List.forall_mem_cons.mp ih
    obtain ⟨t, ht, hadds⟩ := hc s hs (.inr ho)
    obtain ⟨u, hu, hmore⟩ := ihs hcs t hadds.accepted (hadds.opened ▸ ho)
    refine ⟨u, ?_, hadds.trans hmore⟩
    rw [Tree.callsAll, run?_append, ht, Option.bind_some, hu]

theorem grows (tree : Tree) : Grows tree := by
  induction tree with
  | token k text =>
    intro s hs ho
    have hopen : s.builder.opened ≠ [] := ho.resolve_left Bool.false_ne_true
    exact ⟨_, rfl, Builder.adds_token hs hopen k text⟩
  | node k cs ih =>
    intro s hs _
    let inner : BuildSession := { s with builder := s.builder.start k }
    have hstart : inner.builder.failure = none ∧ inner.builder.opened ≠ [] := by
      simp [inner, Builder.start_of_ok hs, hs]
    obtain ⟨t, ht, hadds⟩ := run?_callsAll ih inner hstart.1 hstart.2
    refine ⟨{ t with builder := t.builder.finishNode }, ?_, hadds.node hs⟩
    have hhead : s.run? (Tree.node k cs).calls = inner.run? (Tree.callsAll cs ++ [.finishNode]) := rfl
    rw [hhead, run?_append, ht]
    rfl

/-- On any cache the calls of a node build it, and ask for everything in it. -/
theorem run?_calls (hnode : tree.isNode = true) (cache : Cache) :
    ∃ t, (fresh cache #[]).run? tree.calls = some t ∧ t.builder.root = .ok tree ∧
      t.builder.cache = (cache.serve tree.subtrees).2 := by
  obtain ⟨t, ht, hadds⟩ := grows tree (fresh cache #[]) rfl (.inl hnode)
  have hcache := hadds.cache
  rw [List.flatMap_singleton] at hcache
  exact ⟨t, ht, congrArg Prod.fst hadds.finish, hcache⟩

end BuildSession
end LosslessTree
