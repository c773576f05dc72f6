import LosslessTree.Proofs.Discovery.Order
import LosslessTree.Proofs.Runner.Progress
import Mathlib.Data.List.Basic

/-! What a crew has at the end of its work. The outcomes are put together by path, so the order in which they
arrived is lost; and what the shared cache has counted does not depend on the order of the requests. -/
namespace LosslessTree

/-- Totals do not depend on how long a file took. -/
lemma RunStats.count_untimed (stats : RunStats) (outcome : FileOutcome) :
    stats.count outcome.untimed = stats.count outcome := rfl

lemma RunResult.stats_untimed (discovered : Nat) (files : List FileOutcome) :
    (ofOutcomes discovered (files.map FileOutcome.untimed)).stats = (ofOutcomes discovered files).stats := by
  simp only [ofOutcomes, List.foldl_map, RunStats.count_untimed]

namespace Registry

variable (r : Registry) (files : FileSystem) (o : RunOptions)

/-- Time is not counted for a file that is parsed by itself. -/
lemma untimed_outcomeAlone (path : Bytes) : (r.outcomeAlone files o path).untimed = r.outcomeAlone files o path := by
  have hfile : (r.parseFile files path o.language {} .never).1.duration = 0 := by
    unfold parseFile parseSource
    split
    · rfl
    · split <;> rfl
  unfold outcomeAlone
  by_cases shared : o.sharedCache = true
  · simp only [if_pos shared, FileOutcome.untimed, ← hfile]
  · simp only [if_neg shared, FileOutcome.untimed, ← hfile]

end Registry

namespace Crew

variable {r : Registry} {files : FileSystem} {o : RunOptions} {paths : List Bytes} {crew : Crew}

lemma Complete.flatMap_workers (h : crew.Complete) {α : Type} {f : Worker → List α} (hf : f .idle = []) :
    crew.workers.flatMap f = [] := by
  refine List.flatMap_eq_nil_iff.mpr fun w hw => ?_
  rw [h.idle w hw, hf]

/-- Every path has arrived. -/
lemma Complete.arrived (h : crew.Complete) (hc : crew.Sound r files o paths) :
    (crew.delivered.map FileOutcome.path).Perm paths := by
  have hspread := hc.spread
  rwa [h.handedOut, h.flatMap_workers Worker.held_idle] at hspread

/-- One outcome for each path, in the order of the paths, and each as if the file were parsed by itself. -/
lemma Complete.outcomes (h : crew.Complete) (hc : crew.Sound r files o paths) :
    (crew.outcomes paths).map FileOutcome.untimed = paths.map (r.outcomeAlone files o) := by
  have hfind : ∀ path ∈ paths,
      (crew.delivered.find? (·.path == path)).map FileOutcome.untimed = some (r.outcomeAlone files o path) := by
    intro path hpath
    obtain ⟨outcome, hmem, rfl⟩ := List.mem_map.mp ((h.arrived hc).mem_iff.mpr hpath)
    cases hfound : crew.delivered.find? (·.path == outcome.path) with
    | none => exact absurd BEq.rfl (List.find?_eq_none.mp hfound outcome hmem)
    | some found =>
      have hsame : (found.path == outcome.path) = true :=
        List.find?_some (p := fun o : FileOutcome => o.path == outcome.path) hfound
      rw [Option.map_some, hc.arrived found (List.mem_of_find?_eq_some hfound), eq_of_beq hsame]
  rw [Crew.outcomes, List.map_filterMap, List.filterMap_congr hfind, List.filterMap_eq_map']

/-- What was asked of the shared cache is what the files ask for, in some order. -/
lemma Complete.asked (h : crew.Complete) (hc : crew.Sound r files o paths) :
    ∃ traces, List.Forall₂ (r.Asks files o) paths traces ∧
      (o.sharedCache = true → crew.cache.stats = (Cache.serve {} traces.flatten).2.stats) := by
  obtain ⟨taken, traces, hpaths, hasks, hasked⟩ := hc.asked
  rw [h.handedOut, List.append_nil] at hpaths
  subst hpaths
  refine ⟨traces, hasks, fun shared => ?_⟩
  obtain ⟨made, hmade, hperm⟩ := hasked shared
  rw [h.flatMap_workers Worker.pending_idle, List.append_nil] at hperm
  rw [hmade, Cache.stats_serve_of_perm {} hperm]

/-- Apart from the time, the result is that of a run one file after the other. -/
theorem Complete.result (h : crew.Complete) (hc : crew.Sound r files o paths) (elapsed : Nanoseconds) :
    (crew.result o paths elapsed).untimed = (r.parseAll files o paths .never).1.untimed := by
  obtain ⟨traces, hasks, hcache⟩ := h.asked hc
  have houtcomes := h.outcomes hc
  have hstats := RunResult.stats_untimed paths.length (crew.outcomes paths)
  rw [houtcomes] at hstats
  have hfiles : (paths.map (r.outcomeAlone files o)).map FileOutcome.untimed = paths.map (r.outcomeAlone files o) := by
    rw [List.map_map]
    exact List.map_congr_left fun path _ => r.untimed_outcomeAlone files o path
  rw [Registry.parseAll_eq hasks, RunResult.untimed, RunResult.untimed, RunResult.mk.injEq]
  refine ⟨houtcomes.trans hfiles.symm, ?_⟩
  by_cases shared : o.sharedCache = true
  · simp only [Crew.result, if_pos shared, hcache shared, hstats]
  · simp only [Crew.result, if_neg shared, hstats]

end Crew

/-! A run has one answer, however many workers there are and in whatever order they work. -/

namespace Registry

variable {r : Registry} {files : FileSystem} {o : RunOptions} {paths : List Bytes}

/-- A run that nobody stops parses all files that were found. -/
lemma run_never (hr : r.Driven) (hknown : o.language.isEmpty = true ∨ (r.lookup? o.language).isSome = true)
    (hfound : (Discovery.discover r files o .never).1 = .ok paths) :
    r.run files o .never = (.ok { result := (r.parseAll files o paths .never).1 }, .never) := by
  have hknown' : (!o.language.isEmpty && (r.lookup? o.language).isNone) = false := by
    rcases hknown with hempty | hsome
    · rw [hempty]
      rfl
    · rw [Option.isNone_eq_false_iff.mpr hsome, Bool.and_false]
  have hdiscover : Discovery.discover r files o .never = (.ok paths, .never) :=
    Prod.ext hfound (Discovery.discover_never r files o).1
  obtain ⟨traces, htraces⟩ := exists_traces files o hr paths
  have hleft : (r.parseAll files o paths .never).2 = .never := by
    rw [parseAll_eq htraces]
  unfold run
  simp only [hknown', hdiscover]
  cases paths with
  | nil =>
    have hempty : (r.parseAll files o [] .never).1 = {} := by
      unfold parseAll
      split <;> rfl
    simp only [hempty, Bool.false_eq_true, if_false]
  | cons path paths =>
    simp only [hleft, Cancellation.isDue_never, Cancellation.next_never, Bool.false_eq_true, if_false]

/-- A run lists the files that were found once each and in byte order, every one with the outcome that it has
when it is parsed by itself. With any number of workers, which take up files, call the builder and hand in
outcomes in any order, the steps come to an end, and only when the work is complete; then the crew has the
answer of the run, apart from the time. -/
theorem run_schedule_free (hr : r.Driven)
    (hknown : o.language.isEmpty = true ∨ (r.lookup? o.language).isSome = true)
    (hfound : (Discovery.discover r files o .never).1 = .ok paths) :
    paths.Pairwise (· < ·) ∧
    ∃ answer, r.run files o .never = (.ok answer, .never) ∧ answer.stopped = none ∧
      answer.result.files = paths.map (r.outcomeAlone files o) ∧ answer.result.files.map FileOutcome.path = paths ∧
      (WellFounded fun next crew => Crew.Step r files o crew next) ∧
      ∀ jobs crew, 1 ≤ jobs → Crew.Reaches r files o (.start paths (min jobs paths.length)) crew →
        (¬ crew.Complete → ∃ next, Crew.Step r files o crew next) ∧
        (crew.Complete → ∀ elapsed, (crew.result o paths elapsed).untimed = answer.result.untimed) := by
  have hsorted := (Discovery.discover_never r files o).2 paths hfound
  have hfiles := files_parseAll files o hr paths
  refine ⟨hsorted, _, run_never hr hknown hfound, rfl, hfiles, ?_, Crew.wellFounded_step, ?_⟩
  · exact (congrArg _ hfiles).trans (map_path_outcomeAlone paths)
  · intro jobs crew hjobs hreach
    exact ⟨hreach.exists_step hr hjobs, fun hcomplete elapsed => hcomplete.result hreach.sound elapsed⟩

/-- Two files with a sum each, the second one without its last operand. -/
def sums : FileSystem where
  entries := [([Bytes.ofString "a"], .file ⟨"1 + 2", 0o644, .outside 0⟩),
    ([Bytes.ofString "b"], .file ⟨"2 +", 0o644, .outside 0⟩)]

/-- Both files, named the other way round, through one cache. -/
def sumsOptions : RunOptions where
  paths := [Bytes.ofString "/b", "/a"]
  workingDir := "/"
  language := "calc"
  sharedCache := true

theorem run_schedule_free_sums :
    (Discovery.discover (builtin true) sums sumsOptions .never).1 = .ok ["/a", "/b"] ∧
      ∃ answer, (builtin true).run sums sumsOptions .never = (.ok answer, .never) ∧
        answer.result.files.map FileOutcome.path = ["/a", "/b"] ∧
        ∀ crew, Crew.Reaches (builtin true) sums sumsOptions (.start ["/a", "/b"] 2) crew → crew.Complete →
          ∀ elapsed, (crew.result sumsOptions ["/a", "/b"] elapsed).untimed = answer.result.untimed := by
  have hfound : (Discovery.discover (builtin true) sums sumsOptions .never).1 = .ok ["/a", "/b"] := by decide
  have hlookup : ((builtin true).lookup? sumsOptions.language).isSome = true := by decide
  obtain ⟨-, answer, hrun, -, -, hlisted, -, hcrew⟩ := run_schedule_free (driven_builtin true) (.inr hlookup) hfound
  exact ⟨hfound, answer, hrun, hlisted, fun crew hreach => (hcrew 2 crew (by decide) hreach).2⟩

end Registry
end LosslessTree
