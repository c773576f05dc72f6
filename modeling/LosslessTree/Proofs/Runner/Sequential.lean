import LosslessTree.Proofs.Runner.Crew

/-! Files parsed one after the other. What comes of a file does not depend on the cache that it is given, so
it is the same as if the file were parsed by itself. -/
namespace LosslessTree
namespace Registry

variable (r : Registry) (files : FileSystem) (o : RunOptions)

/-- The outcome of a file that is parsed by itself. -/
def outcomeAlone (path : Bytes) : FileOutcome :=
  let parsed := r.parseFile files path o.language {} .never
  if o.sharedCache then parsed.1 else { parsed.1 with cache := parsed.2.1.stats }

/-- Parsing the file comes to one outcome on every cache, and asks it for these elements. -/
def Asks (path : Bytes) (requests : List Tree) : Prop :=
  ∀ cache, r.parseFile files path o.language cache .never =
    ((r.parseFile files path o.language {} .never).1, (cache.serve requests).2, .never)

variable {r files o} {path content : Bytes} {l : Language} {d : Driver} {paths : List Bytes}
  {traces : List (List Tree)}

lemma mem_of_lookup {name : Bytes} (h : r.lookup? name = some l) : l ∈ r.languages := List.mem_of_find?_eq_some h

lemma mem_of_forPath (h : r.forPath? path = some l) : l ∈ r.languages := by
  unfold forPath? at h
  split at h
  · cases h
  · exact List.mem_of_find?_eq_some h

lemma mem_of_detect (h : r.detect? path content = some l) : l ∈ r.languages := by
  unfold detect? at h
  cases hpath : r.forPath? path with
  | some l' =>
    rw [hpath] at h
    obtain rfl : l' = l := Option.some.inj h
    exact mem_of_forPath hpath
  | none =>
    rw [hpath] at h
    cases hshebang : (Detection.byShebang? content).bind r.lookup? with
    | some l' =>
      rw [hshebang] at h
      obtain rfl : l' = l := Option.some.inj h
      obtain ⟨name, -, hname⟩ := Option.bind_eq_some_iff.mp hshebang
      exact mem_of_lookup hname
    | none =>
      rw [hshebang] at h
      obtain ⟨name, -, hname⟩ := Option.bind_eq_some_iff.mp h
      exact mem_of_lookup hname

/-- The language of a file is registered. -/
lemma mem_of_resolve {name : Bytes} (h : r.resolve path content name = .ok l) : l ∈ r.languages := by
  unfold resolve at h
  split at h
  · cases hdetect : r.detect? path content with
    | none => rw [hdetect] at h; cases h
    | some l' =>
      rw [hdetect] at h
      cases h
      exact mem_of_detect hdetect
  · cases hlookup : r.lookup? name with
    | none => rw [hlookup] at h; cases h
    | some l' =>
      rw [hlookup] at h
      cases h
      exact mem_of_lookup hlookup

lemma asks_unreadable {e : AccessError} (read : files.readFile path = .error e) : Asks r files o path [] := by
  intro cache
  simp [parseFile, read]

lemma asks_unresolved {e : FileError} (read : files.readFile path = .ok content)
    (resolve : r.resolve path content o.language = .error e) : Asks r files o path [] := by
  intro cache
  simp [parseFile, parseSource, read, resolve]

/-- A file whose language is known asks for what the calls of a driver ask for, and comes to what they come
to on a new cache. -/
lemma asks_driven (read : files.readFile path = .ok content)
    (resolve : r.resolve path content o.language = .ok l) (drives : d.Drives l content) :
    Asks r files o path d.requests ∧ ∃ s, (BuildSession.fresh {} #[]).run? d.calls = some s ∧
      Worker.outcome o path l d.report s 0 = r.outcomeAlone files o path := by
  obtain ⟨s, hs, hcache, hparse⟩ := drives.parse
  have hfile : ∀ cache, r.parseFile files path o.language cache .never =
      ({ path := path, language := some l,
         result := (s.builder.root.mapError d.report).mapError (.unparsed path) },
        (cache.serve d.requests).2, .never) := by
    intro cache
    simp [parseFile, parseSource, read, resolve, hparse]
  refine ⟨fun cache => ?_, s, hs, ?_⟩
  · rw [hfile, hfile]
  · rw [outcomeAlone, hfile, Worker.outcome, hcache]
    by_cases hshared : o.sharedCache = true <;> simp [hshared]

lemma exists_asks (hr : r.Driven) (path : Bytes) : ∃ requests, Asks r files o path requests := by
  cases read : files.readFile path with
  | error e => exact ⟨[], asks_unreadable read⟩
  | ok content =>
    cases resolve : r.resolve path content o.language with
    | error e => exact ⟨[], asks_unresolved read resolve⟩
    | ok l =>
      obtain ⟨d, drives⟩ := hr l (mem_of_resolve resolve) content
      exact ⟨d.requests, (asks_driven read resolve drives).1⟩

variable (files o) in
lemma exists_traces (hr : r.Driven) (paths : List Bytes) :
    ∃ traces, List.Forall₂ (Asks r files o) paths traces := by
  induction paths with
  | nil => exact ⟨[], .nil⟩
  | cons path paths ih =>
    obtain ⟨requests, hrequests⟩ := exists_asks hr path
    obtain ⟨traces, htraces⟩ := ih
    exact ⟨requests :: traces, .cons hrequests htraces⟩

/-- Each with a cache of its own. -/
lemma parseEach_eq (h : List.Forall₂ (Asks r files o) paths traces) (alone : o.sharedCache = false) :
    r.parseEach files o.language .never paths = (paths.map (r.outcomeAlone files o), .never) := by
  induction h with
  | nil => rfl
  | @cons path requests paths traces hpath hrest ih =>
    have hfile := hpath {}
    generalize (r.parseFile files path o.language {} .never).1 = outcome at hfile
    have halone : r.outcomeAlone files o path =
        { outcome with cache := (Cache.serve {} requests).2.stats } := by
      rw [outcomeAlone, hfile]
      simp [alone]
    simp only [parseEach, Cancellation.isDue_never, Cancellation.next_never, hfile, ih, List.map_cons, halone]
    rfl

/-- All through one cache. -/
lemma parseShared_eq (h : List.Forall₂ (Asks r files o) paths traces) (shared : o.sharedCache = true)
    (cache : Cache) : r.parseShared files o.language cache .never paths =
      (paths.map (r.outcomeAlone files o), (cache.serve traces.flatten).2, .never) := by
  induction h generalizing cache with
  | nil => rfl
  | @cons path requests paths traces hpath hrest ih =>
    have halone : r.outcomeAlone files o path = (r.parseFile files path o.language {} .never).1 := by
      simp [outcomeAlone, shared]
    have hfile := hpath cache
    simp only [parseShared, Cancellation.isDue_never, Cancellation.next_never, hfile, ih, List.map_cons, halone,
      List.flatten_cons, Cache.serve_append]
    rfl

/-- A run one file after the other: every file as by itself, and the shared cache with all requests made to
it. -/
theorem parseAll_eq (h : List.Forall₂ (Asks r files o) paths traces) :
    r.parseAll files o paths .never =
      ({ RunResult.ofOutcomes paths.length (paths.map (r.outcomeAlone files o)) with
          stats.cache := if o.sharedCache then (Cache.serve {} traces.flatten).2.stats else
            (RunResult.ofOutcomes paths.length (paths.map (r.outcomeAlone files o))).stats.cache }, .never) := by
  unfold parseAll
  by_cases shared : o.sharedCache = true
  · simp only [if_pos shared, parseShared_eq h shared]
  · have alone : o.sharedCache = false := by simpa using shared
    simp only [if_neg shared, parseEach_eq h alone]

variable (files o) in
lemma files_parseAll (hr : r.Driven) (paths : List Bytes) :
    (r.parseAll files o paths .never).1.files = paths.map (r.outcomeAlone files o) := by
  obtain ⟨traces, htraces⟩ := exists_traces files o hr paths
  rw [parseAll_eq htraces]
  rfl

lemma path_outcomeAlone (path : Bytes) : (r.outcomeAlone files o path).path = path := by
  have hfile : (r.parseFile files path o.language {} .never).1.path = path := by
    unfold parseFile parseSource
    split
    · rfl
    · split <;> rfl
  unfold outcomeAlone
  by_cases shared : o.sharedCache = true
  · simp only [if_pos shared, hfile]
  · simp only [if_neg shared, hfile]

/-- One outcome for each path, in the same order. -/
lemma map_path_outcomeAlone (paths : List Bytes) :
    (paths.map (r.outcomeAlone files o)).map FileOutcome.path = paths := by
  rw [List.map_map]
  exact (List.map_congr_left fun path _ => path_outcomeAlone path).trans (List.map_id paths)

end Registry
end LosslessTree
