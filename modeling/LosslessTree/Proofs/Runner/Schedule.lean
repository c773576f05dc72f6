import LosslessTree.Proofs.Runner.Sequential

/-! Every order of steps comes to the same result. At any time each path is still to be handed out, with one
worker, or arrived; each worker will come to the outcome that its file has by itself; and what was asked of
the shared cache, together with what will be, is what the files handed out ask for, in some order. -/
namespace LosslessTree

namespace Worker

/-- The path of the file that a worker is busy with. -/
def held : Worker → List Bytes
  | .idle => []
  | .parsing path .. => [path]
  | .done outcome => [outcome.path]

/-- What a worker will still ask the cache for. -/
def pending : Worker → List Tree
  | .parsing _ _ _ s calls => s.trace calls
  | _ => []

@[simp] lemma held_idle : held .idle = [] := rfl

@[simp] lemma held_done (outcome : FileOutcome) : held (.done outcome) = [outcome.path] := rfl

@[simp] lemma pending_idle : pending .idle = [] := rfl

@[simp] lemma pending_parsing (path : Bytes) (l : Language) (report : BuildError → ParseError)
    (s : BuildSession) (calls : List BuildEvent) : pending (.parsing path l report s calls) = s.trace calls := rfl

@[simp] lemma pending_done (outcome : FileOutcome) : pending (.done outcome) = [] := rfl

/-- The worker will come to the outcome that the file has by itself. -/
inductive Right (r : Registry) (files : FileSystem) (o : RunOptions) : Worker → Prop
  | idle : Right r files o .idle
  | parsing {path : Bytes} {l : Language} {report : BuildError → ParseError} {s t : BuildSession}
      {calls : List BuildEvent} (run : s.run? calls = some t)
      (alone : outcome o path l report t 0 = r.outcomeAlone files o path) :
      Right r files o (.parsing path l report s calls)
  | done {outcome : FileOutcome} (alone : outcome.untimed = r.outcomeAlone files o outcome.path) :
      Right r files o (.done outcome)

variable {r : Registry} {files : FileSystem} {o : RunOptions} {path : Bytes} {w : Worker} {l : Language}
  {report : BuildError → ParseError} {s : BuildSession} {e : BuildEvent} {calls : List BuildEvent}

/-- With a shared cache the outcome does not depend on what is in it. -/
lemma outcome_withCache (shared : o.sharedCache = true) (l : Language) (report : BuildError → ParseError)
    (s : BuildSession) (c : Cache) : outcome o path l report (s.withCache c) 0 = outcome o path l report s 0 := by
  simp only [outcome, if_pos shared]
  rfl

/-- A worker that takes up a file is on the way to its outcome, and will ask for what the file asks for. -/
lemma TakesUp.right (h : TakesUp r files o path w) :
    w.Right r files o ∧ w.held = [path] ∧ r.Asks files o path w.pending := by
  cases h with
  | unreadable read =>
    refine ⟨.done ?_, rfl, Registry.asks_unreadable read⟩
    simp [Registry.outcomeAlone, Registry.parseFile, read, FileOutcome.untimed]
  | unresolved read resolve =>
    refine ⟨.done ?_, rfl, Registry.asks_unresolved read resolve⟩
    simp [Registry.outcomeAlone, Registry.parseFile, Registry.parseSource, read, resolve, FileOutcome.untimed]
  | parsing read resolve drives =>
    obtain ⟨hasks, s, hs, halone⟩ := Registry.asks_driven read resolve drives
    exact ⟨.parsing hs halone, rfl, hasks⟩

/-- The next call is accepted, and the rest of the calls come to the outcome. -/
lemma Right.next (h : Right r files o (.parsing path l report s (e :: calls))) :
    ∃ u t, s.step? e = some u ∧ u.run? calls = some t ∧
      outcome o path l report t 0 = r.outcomeAlone files o path := by
  cases h with
  | @parsing _ _ _ _ t _ run alone =>
    obtain ⟨u, hu, ht⟩ := Option.bind_eq_some_iff.mp run
    exact ⟨u, t, hu, ht, alone⟩

/-- After the last call the outcome is there. -/
lemma Right.outcome (h : Right r files o (.parsing path l report s [])) (duration : Nanoseconds) :
    (outcome o path l report s duration).untimed = r.outcomeAlone files o path := by
  cases h with
  | parsing run alone =>
    obtain rfl := Option.some.inj run
    exact alone

end Worker

namespace Crew

variable {r : Registry} {files : FileSystem} {o : RunOptions} {paths : List Bytes} {crew next : Crew}

/-- What is true of a crew at any time. -/
structure Sound (r : Registry) (files : FileSystem) (o : RunOptions) (paths : List Bytes) (crew : Crew) :
    Prop where
  spread : (crew.queue ++ crew.workers.flatMap Worker.held ++ crew.delivered.map FileOutcome.path).Perm paths
  right : ∀ w ∈ crew.workers, w.Right r files o
  arrived : ∀ outcome ∈ crew.delivered, outcome.untimed = r.outcomeAlone files o outcome.path
  asked : ∃ taken traces, paths = taken ++ crew.queue ∧ List.Forall₂ (r.Asks files o) taken traces ∧
    (o.sharedCache = true → ∃ made, crew.cache = (Cache.serve {} made).2 ∧
      (made ++ crew.workers.flatMap Worker.pending).Perm traces.flatten)

lemma sound_start (paths : List Bytes) (workers : Nat) : Sound r files o paths (start paths workers) := by
  have hheld : (List.replicate workers Worker.idle).flatMap Worker.held = [] := by
    simp [List.flatMap_eq_nil_iff, Worker.held]
  have hpending : (List.replicate workers Worker.idle).flatMap Worker.pending = [] := by
    simp [List.flatMap_eq_nil_iff, Worker.pending]
  refine ⟨?_, ?_, List.forall_mem_nil _, [], [], rfl, .nil, fun _ => ⟨[], rfl, ?_⟩⟩
  · simp [start, hheld]
  · intro w hw
    rw [List.eq_of_mem_replicate hw]
    exact .idle
  · simp [start, hpending]

lemma right_swap {before after : List Worker} {w w' : Worker}
    (h : ∀ v ∈ before ++ w :: after, v.Right r files o) (hw : w'.Right r files o) :
    ∀ v ∈ before ++ w' :: after, v.Right r files o := by
  obtain ⟨hbefore, hafter⟩ := List.forall_mem_append.mp h
  exact List.forall_mem_append.mpr ⟨hbefore, List.forall_mem_cons.mpr ⟨hw, (List.forall_mem_cons.mp hafter).2⟩⟩

/-- A worker goes on with its file; what it no longer has to ask for has been asked of the shared cache. -/
lemma Sound.advance {queue : List Bytes} {before after : List Worker} {w w' : Worker} {cache cache' : Cache}
    {delivered : List FileOutcome} (hc : Sound r files o paths ⟨queue, before ++ w :: after, cache, delivered⟩)
    (hw : w'.Right r files o) (hheld : w'.held = w.held)
    (hserved : o.sharedCache = true → ∃ more, cache' = (cache.serve more).2 ∧ w.pending = more ++ w'.pending) :
    Sound r files o paths ⟨queue, before ++ w' :: after, cache', delivered⟩ := by
  obtain ⟨hspread, hright, harrived, taken, traces, hpaths, hasks, hasked⟩ := hc
  refine ⟨?_, right_swap hright hw, harrived, taken, traces, hpaths, hasks, fun shared => ?_⟩
  · simpa only [List.flatMap_append, List.flatMap_cons, hheld] using hspread
  · obtain ⟨made, rfl, hperm⟩ := hasked shared
    obtain ⟨more, rfl, hpending⟩ := hserved shared
    refine ⟨made ++ more, (Cache.serve_append ..).symm, List.Perm.trans ?_ hperm⟩
    simp only [List.flatMap_append, List.flatMap_cons, hpending, List.perm_iff_count, List.count_append]
    omega

/-- Every step keeps what is true of a crew. -/
theorem Step.sound (h : Step r files o crew next) (hc : crew.Sound r files o paths) :
    next.Sound r files o paths := by
  cases h with
  | @take path queue before after w cache delivered takes =>
    obtain ⟨hspread, hright, harrived, taken, traces, hpaths, hasks, hasked⟩ := hc
    obtain ⟨hw, hheld, hpending⟩ := takes.right
    refine ⟨?_, right_swap hright hw, harrived, taken ++ [path], traces ++ [w.pending], ?_, ?_, fun shared => ?_⟩
    · refine List.Perm.trans ?_ hspread
      simp only [List.flatMap_append, List.flatMap_cons, hheld, Worker.held_idle, List.perm_iff_count,
        List.count_append, List.count_cons, List.count_nil]
      omega
    · rw [hpaths, List.append_assoc]
      rfl
    · exact List.rel_append hasks (.cons hpending .nil)
    · obtain ⟨made, hmade, hperm⟩ := hasked shared
      refine ⟨made, hmade, ?_⟩
      rw [List.flatten_append, List.flatten_singleton]
      refine List.Perm.trans ?_ (hperm.append_right w.pending)
      simp only [List.flatMap_append, List.flatMap_cons, Worker.pending_idle, List.perm_iff_count,
        List.count_append, List.count_nil]
      omega
  | @call queue before after cache delivered path l report s t e calls shared step =>
    obtain ⟨u, v, hu, hv, halone⟩ := (hc.right _ (List.mem_append_right before List.mem_cons_self)).next
    rw [BuildSession.step?_withCache, hu] at step
    obtain rfl := Option.some.inj step
    have hrun := u.run?_withCache (cache.serve (s.requests e)).2 calls
    rw [hv] at hrun
    refine hc.advance (.parsing hrun ((Worker.outcome_withCache shared l report v _).trans halone)) rfl fun _ => ?_
    refine ⟨s.requests e, rfl, ?_⟩
    rw [Worker.pending_parsing, Worker.pending_parsing, BuildSession.trace_withCache]
    simp only [BuildSession.trace, hu]
  | @callAlone queue before after cache delivered path l report s t e calls alone step =>
    obtain ⟨u, v, hu, hv, halone⟩ := (hc.right _ (List.mem_append_right before List.mem_cons_self)).next
    obtain rfl := Option.some.inj (hu.symm.trans step)
    refine hc.advance (.parsing hv halone) rfl fun shared => ?_
    exact absurd (shared.symm.trans alone) Bool.true_eq_false.mp
  | @finish queue before after cache delivered path l report s duration =>
    have hw := hc.right _ (List.mem_append_right before List.mem_cons_self)
    exact hc.advance (.done (hw.outcome duration)) rfl fun _ => ⟨[], rfl, rfl⟩
  | @deliver queue before after cache delivered outcome =>
    obtain ⟨hspread, hright, harrived, taken, traces, hpaths, hasks, hasked⟩ := hc
    refine ⟨?_, right_swap hright .idle, ?_, taken, traces, hpaths, hasks, ?_⟩
    · refine List.Perm.trans ?_ hspread
      simp only [List.flatMap_append, List.flatMap_cons, Worker.held_done, Worker.held_idle, List.map_cons,
        List.perm_iff_count, List.count_append, List.count_cons, List.count_nil]
      omega
    · cases hright _ (List.mem_append_right before List.mem_cons_self) with
      | done alone => exact List.forall_mem_cons.mpr ⟨alone, harrived⟩
    · simpa only [List.flatMap_append, List.flatMap_cons, Worker.pending_done, Worker.pending_idle] using hasked

/-- What is true at the start stays true, whatever order the steps are made in. -/
theorem Reaches.sound {workers : Nat} (h : Reaches r files o (start paths workers) crew) :
    crew.Sound r files o paths := by
  induction h with
  | refl => exact sound_start paths workers
  | tail _ step ih => exact step.sound ih

end Crew
end LosslessTree
