import LosslessTree.Proofs.Runner.Schedule
import Mathlib.Algebra.GroupWithZero.Nat
import Mathlib.Data.Prod.Lex
import Mathlib.Order.WellFounded

/-! A crew never gets stuck before its work is complete, and it cannot go on for ever. A step either hands out
a path or brings a worker closer to the end of what it is at. -/
namespace LosslessTree

namespace Worker

variable {r : Registry} {files : FileSystem} {o : RunOptions}

/-- How many steps a worker is away from being idle. -/
def distance : Worker → Nat
  | .idle => 0
  | .parsing _ _ _ _ calls => calls.length + 2
  | .done _ => 1

variable (files o) in
lemma exists_takesUp (hr : r.Driven) (path : Bytes) : ∃ w, TakesUp r files o path w := by
  cases read : files.readFile path with
  | error e => exact ⟨_, .unreadable read⟩
  | ok content =>
    cases resolve : r.resolve path content o.language with
    | error e => exact ⟨_, .unresolved read resolve⟩
    | ok l =>
      obtain ⟨d, drives⟩ := hr l (Registry.mem_of_resolve resolve) content
      exact ⟨_, .parsing read resolve drives⟩

end Worker

namespace Crew

variable {r : Registry} {files : FileSystem} {o : RunOptions} {paths : List Bytes} {crew next : Crew}

lemma Step.length_workers (h : Step r files o crew next) : next.workers.length = crew.workers.length := by
  cases h <;> simp only [List.length_append, List.length_cons]

lemma Reaches.length_workers (h : Reaches r files o crew next) : next.workers.length = crew.workers.length := by
  induction h with
  | refl => rfl
  | tail _ step ih => exact step.length_workers.trans ih

/-- A worker that is busy can make a step. -/
lemma exists_step_of_busy {queue : List Bytes} {before after : List Worker} {w : Worker} {cache : Cache}
    {delivered : List FileOutcome} (hw : w.Right r files o) (hbusy : w ≠ .idle) :
    ∃ next, Step r files o ⟨queue, before ++ w :: after, cache, delivered⟩ next := by
  cases w with
  | idle => exact absurd rfl hbusy
  | done outcome => exact ⟨_, .deliver⟩
  | parsing path l report s calls =>
    cases calls with
    | nil => exact ⟨_, .finish 0⟩
    | cons e calls =>
      obtain ⟨u, v, hu, -, -⟩ := hw.next
      by_cases shared : o.sharedCache = true
      · have hstep := s.step?_withCache cache e
        rw [hu] at hstep
        exact ⟨_, .call shared hstep⟩
      · exact ⟨_, .callAlone (Bool.eq_false_iff.mpr shared) hu⟩

/-- As long as the work is not complete, some worker can make a step. -/
theorem exists_step (hr : r.Driven) (hc : crew.Sound r files o paths) (hworkers : crew.workers ≠ [])
    (hmore : ¬ crew.Complete) : ∃ next, Step r files o crew next := by
  obtain ⟨queue, workers, cache, delivered⟩ := crew
  by_cases hidle : ∀ w ∈ workers, w = .idle
  · cases queue with
    | nil => exact absurd ⟨rfl, hidle⟩ hmore
    | cons path queue =>
      obtain ⟨w, rest, rfl⟩ := List.exists_cons_of_ne_nil hworkers
      obtain rfl := hidle w List.mem_cons_self
      obtain ⟨w, takes⟩ := Worker.exists_takesUp files o hr path
      change ∃ next, Step r files o ⟨path :: queue, [] ++ .idle :: rest, cache, delivered⟩ next
      exact ⟨_, .take takes⟩
  · push Not at hidle
    obtain ⟨w, hmem, hbusy⟩ := hidle
    have hw := hc.right w hmem
    obtain ⟨before, after, rfl⟩ := List.append_of_mem hmem
    exact exists_step_of_busy hw hbusy

/-- With at least one worker for the files, if there are any, a crew is never stuck before its work is
complete. -/
theorem Reaches.exists_step {jobs : Nat} (hr : r.Driven) (hjobs : 1 ≤ jobs)
    (h : Reaches r files o (start paths (min jobs paths.length)) crew) (hmore : ¬ crew.Complete) :
    ∃ next, Step r files o crew next := by
  have hsound := h.sound
  refine Crew.exists_step hr hsound (fun hnone => hmore ?_) hmore
  have hlength := h.length_workers
  rw [hnone, start, List.length_replicate, List.length_nil] at hlength
  have hpaths : paths = [] := List.eq_nil_of_length_eq_zero (by omega)
  obtain ⟨taken, -, hqueue, -⟩ := hsound.asked
  rw [hpaths] at hqueue
  exact ⟨(List.append_eq_nil_iff.mp hqueue.symm).2, by simp [hnone]⟩

/-- The paths still to be handed out, and then the distance of all workers from being idle. -/
def remaining (crew : Crew) : ℕ ×ₗ ℕ :=
  toLex (crew.queue.length, (crew.workers.map Worker.distance).sum)

lemma Step.remaining_lt (h : Step r files o crew next) : next.remaining < crew.remaining := by
  rw [remaining, remaining, Prod.Lex.toLex_lt_toLex]
  cases h with
  | take takes => exact .inl (Nat.lt_succ_self _)
  | call shared step | callAlone alone step | finish duration | deliver =>
    refine .inr ⟨rfl, ?_⟩
    simp only [List.map_append, List.map_cons, List.sum_append, List.sum_cons, Worker.distance, List.length_cons,
      List.length_nil]
    omega

/-- No crew makes steps for ever. -/
theorem wellFounded_step : WellFounded fun next crew => Step r files o crew next :=
  Subrelation.wf Step.remaining_lt (InvImage.wf remaining wellFounded_lt)

end Crew
end LosslessTree
