import LosslessTree.Language.Registry
import LosslessTree.Proofs.Calc.Revision
import LosslessTree.Proofs.Decl.Revision
import LosslessTree.Proofs.Markdown.Lossless
import LosslessTree.Proofs.Tree.Sharing
import LosslessTree.Runner.Run
import Mathlib.Logic.Relation

/-! What a parser does to a cache that it may have to share. A driver makes calls that depend on the text
alone; each of them asks the cache for at most one element, so between any two of them other drivers may
make theirs. -/
namespace LosslessTree

/-- The calls that are made for a text, and what is reported if one of them is rejected. -/
structure Driver where
  calls : List BuildEvent
  report : BuildError → ParseError

namespace Driver

/-- On every cache the calls leave what the parser leaves. -/
def Drives (d : Driver) (l : Language) (src : Bytes) : Prop :=
  ∀ cache, ∃ s, (BuildSession.fresh cache #[]).run? d.calls = some s ∧
    l.parse src cache .never = ⟨s.builder.root.mapError d.report, s.builder.cache, .never⟩

/-- What the calls ask a cache for. -/
def requests (d : Driver) : List Tree := (BuildSession.fresh {} #[]).trace d.calls

variable {d : Driver} {l : Language} {src : Bytes}

/-- What a session on any cache ends with: the result does not depend on the cache, and the cache is left as
the requests leave it. -/
lemma Drives.parse (h : d.Drives l src) : ∃ s, (BuildSession.fresh {} #[]).run? d.calls = some s ∧
    s.builder.cache = (Cache.serve {} d.requests).2 ∧
    ∀ cache, l.parse src cache .never =
      ⟨s.builder.root.mapError d.report, (cache.serve d.requests).2, .never⟩ := by
  obtain ⟨s, hs, -⟩ := h {}
  have hrun : ∀ cache, (BuildSession.fresh cache #[]).run? d.calls =
      some (s.withCache (cache.serve d.requests).2) := by
    intro cache
    have hcache := BuildSession.run?_withCache (BuildSession.fresh {} #[]) cache d.calls
    rwa [hs] at hcache
  have hsame : s = s.withCache (Cache.serve {} d.requests).2 := Option.some.inj (hs.symm.trans (hrun {}))
  refine ⟨s, hs, congrArg (·.builder.cache) hsame, fun cache => ?_⟩
  obtain ⟨t, ht, hparse⟩ := h cache
  obtain rfl : s.withCache (cache.serve d.requests).2 = t := Option.some.inj ((hrun cache).symm.trans ht)
  exact hparse

end Driver

namespace Language

/-- Every text has a driver. -/
def Driven (l : Language) : Prop := ∀ src, ∃ d : Driver, d.Drives l src

/-- A parser that answers with a node, the same on every cache, and asks for everything in it. -/
lemma driven_of_tree {l : Language} (h : ∀ src, ∃ tree, tree.isNode = true ∧ ∀ cache,
    l.parse src cache .never = ⟨.ok tree, (cache.serve tree.subtrees).2, .never⟩) : l.Driven := by
  intro src
  obtain ⟨tree, hnode, hparse⟩ := h src
  refine ⟨⟨tree.calls, .build ""⟩, fun cache => ?_⟩
  obtain ⟨s, hs, hroot, hcache⟩ := BuildSession.run?_calls hnode cache
  refine ⟨s, hs, ?_⟩
  rw [hparse, hroot, hcache]
  rfl

lemma driven_calc : ofCalc.Driven := by
  refine driven_of_tree fun src => ?_
  obtain ⟨ts, hitems, -⟩ := Calc.parse_never src {}
  refine ⟨.node Calc.Symbol.root.kind ts, rfl, fun cache => ?_⟩
  obtain ⟨us, hitems', hparse⟩ := Calc.parse_never src cache
  have hself := Lexeme.revised_self (Calc.lex src)
  obtain rfl : us = ts := (hitems'.revised hitems' hself).unique (hitems'.revised hitems hself) rfl
  exact hparse

lemma driven_decl : ofDecl.Driven := by
  refine driven_of_tree fun src => ?_
  obtain ⟨ts, hsource, -⟩ := Decl.parse_never src {}
  refine ⟨.node Decl.Symbol.sourceFile.kind ts, rfl, fun cache => ?_⟩
  obtain ⟨us, hsource', hparse⟩ := Decl.parse_never src cache
  have hself := Lexeme.revised_self (Decl.lex src)
  obtain rfl : us = ts := (hsource'.revised hsource' hself).unique (hsource'.revised hsource hself) rfl
  exact hparse

lemma driven_markdown (tables : Bool) : (ofMarkdown tables).Driven :=
  driven_of_tree fun src => ⟨_, rfl, fun cache => Markdown.build_never src (Markdown.blocks src tables) cache⟩

end Language

namespace Registry

/-- Every language has a driver for every text. -/
def Driven (r : Registry) : Prop := ∀ l ∈ r.languages, l.Driven

theorem driven_builtin (tables : Bool) : (builtin tables).Driven := by
  intro l hl
  simp only [builtin, Language.builtin, List.mem_cons, List.not_mem_nil, or_false] at hl
  rcases hl with rfl | rfl | rfl
  · exact Language.driven_calc
  · exact Language.driven_decl
  · exact Language.driven_markdown tables

end Registry

/-! A crew of workers that parse the files of a run at the same time. Paths are handed out in order, to any
worker that is free; a worker makes the calls of its file one by one, on the shared cache or on one of its
own; and outcomes arrive in any order, to be put together by path at the end. -/

inductive Worker where
  | idle
  /-- At work on a file, with the calls still to make. -/
  | parsing (path : Bytes) (language : Language) (report : BuildError → ParseError) (session : BuildSession)
    (calls : List BuildEvent)
  /-- Waits for its outcome to be collected. -/
  | done (outcome : FileOutcome)

structure Crew where
  /-- The paths that were not handed out yet. -/
  queue : List Bytes
  workers : List Worker
  /-- The cache that the workers share, if they do. -/
  cache : Cache := {}
  /-- The outcomes that have arrived, the latest first. -/
  delivered : List FileOutcome := []

namespace Worker

variable (r : Registry) (files : FileSystem) (o : RunOptions)

/-- What a worker does with a path: it reads the file and finds its language, and then has its calls to make. -/
inductive TakesUp (path : Bytes) : Worker → Prop
  | unreadable {e : AccessError} (read : files.readFile path = .error e) :
      TakesUp path (.done { path := path, result := .error (.unreadable path e) })
  | unresolved {content : Bytes} {e : FileError} (read : files.readFile path = .ok content)
      (resolve : r.resolve path content o.language = .error e) :
      TakesUp path (.done { path := path, result := .error e })
  | parsing {content : Bytes} {l : Language} {d : Driver} (read : files.readFile path = .ok content)
      (resolve : r.resolve path content o.language = .ok l) (drives : d.Drives l content) :
      TakesUp path (.parsing path l d.report (.fresh {} #[]) d.calls)

/-- The outcome of a file whose calls have all been made. -/
def outcome (path : Bytes) (l : Language) (report : BuildError → ParseError) (s : BuildSession)
    (duration : Nanoseconds) : FileOutcome where
  path := path
  language := some l
  result := (s.builder.root.mapError report).mapError (.unparsed path)
  duration := duration
  cache := if o.sharedCache then {} else s.builder.cache.stats

end Worker

namespace Crew

variable (r : Registry) (files : FileSystem) (o : RunOptions)

/-- One step of one worker. -/
inductive Step : Crew → Crew → Prop
  | take {path : Bytes} {queue : List Bytes} {before after : List Worker} {w : Worker} {cache : Cache}
      {delivered : List FileOutcome} (takes : Worker.TakesUp r files o path w) :
      Step ⟨path :: queue, before ++ .idle :: after, cache, delivered⟩
        ⟨queue, before ++ w :: after, cache, delivered⟩
  | call {queue : List Bytes} {before after : List Worker} {cache : Cache} {delivered : List FileOutcome}
      {path : Bytes} {l : Language} {report : BuildError → ParseError} {s t : BuildSession} {e : BuildEvent}
      {calls : List BuildEvent} (shared : o.sharedCache = true) (step : (s.withCache cache).step? e = some t) :
      Step ⟨queue, before ++ .parsing path l report s (e :: calls) :: after, cache, delivered⟩
        ⟨queue, before ++ .parsing path l report t calls :: after, t.builder.cache, delivered⟩
  | callAlone {queue : List Bytes} {before after : List Worker} {cache : Cache}
      {delivered : List FileOutcome} {path : Bytes} {l : Language} {report : BuildError → ParseError}
      {s t : BuildSession} {e : BuildEvent} {calls : List BuildEvent} (alone : o.sharedCache = false)
      (step : s.step? e = some t) :
      Step ⟨queue, before ++ .parsing path l report s (e :: calls) :: after, cache, delivered⟩
        ⟨queue, before ++ .parsing path l report t calls :: after, cache, delivered⟩
  | finish {queue : List Bytes} {before after : List Worker} {cache : Cache} {delivered : List FileOutcome}
      {path : Bytes} {l : Language} {report : BuildError → ParseError} {s : BuildSession}
      (duration : Nanoseconds) :
      Step ⟨queue, before ++ .parsing path l report s [] :: after, cache, delivered⟩
        ⟨queue, before ++ .done (Worker.outcome o path l report s duration) :: after, cache, delivered⟩
  | deliver {queue : List Bytes} {before after : List Worker} {cache : Cache} {delivered : List FileOutcome}
      {outcome : FileOutcome} :
      Step ⟨queue, before ++ .done outcome :: after, cache, delivered⟩
        ⟨queue, before ++ .idle :: after, cache, outcome :: delivered⟩

/-- From one state to another by any steps in any order. -/
abbrev Reaches : Crew → Crew → Prop := Relation.ReflTransGen (Step r files o)

/-- A number of workers before the first path is handed out. -/
def start (paths : List Bytes) (workers : Nat) : Crew :=
  { queue := paths, workers := List.replicate workers .idle }

/-- Every path was handed out and every outcome has arrived. -/
structure Complete (crew : Crew) : Prop where
  handedOut : crew.queue = []
  idle : ∀ w ∈ crew.workers, w = .idle

/-- The outcomes in the order of the paths; of two for one path, the later. -/
def outcomes (crew : Crew) (paths : List Bytes) : List FileOutcome :=
  paths.filterMap fun path => crew.delivered.find? (·.path == path)

/-- The result that is put together at the end. -/
def result (crew : Crew) (paths : List Bytes) (elapsed : Nanoseconds) : RunResult :=
  let result := RunResult.ofOutcomes paths.length (crew.outcomes paths)
  let cache := if o.sharedCache then crew.cache.stats else result.stats.cache
  { result with stats := { result.stats with cache := cache, duration := elapsed } }

end Crew

/-- Apart from how long it took. -/
def FileOutcome.untimed (outcome : FileOutcome) : FileOutcome := { outcome with duration := 0 }

/-- Apart from how long it took, as a whole and for each file. -/
def RunResult.untimed (result : RunResult) : RunResult where
  files := result.files.map FileOutcome.untimed
  stats := { result.stats with duration := 0 }

end LosslessTree
