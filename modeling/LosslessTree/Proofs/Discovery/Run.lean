import LosslessTree.Proofs.Discovery.Order
import LosslessTree.Proofs.Files.Location

/-! Searches as finite runs. Every part of a search does something at once and leaves further parts to do; a run does
one after the other, without a bound on how deep they are nested, and records the directories that it lists. A search
with a bound has the same run where the bound is not met. -/
namespace LosslessTree.Discovery

/-- A part of a search. -/
inductive Task where
  | input (text : Bytes)
  | walk (root : Bytes)
  | path (root path : Bytes)

/-- What a part of a search has listed, and what it leaves to do. -/
structure Onward where
  /-- The path of the directory whose entries have been listed, if any. -/
  listed : List Bytes := []
  todo : List Task := []

/-- How a failure in what a part leaves to do is reported. -/
def Task.within : Task → Failure → Failure
  | .walk root => fun f => f.within ("walk directory " ++ root)
  | .input _ | .path .. => id

/-- A directory whose entries are listed, and looked at one after the other. -/
def Scope.entries (scope : Scope) (root dir : Bytes) : Onward where
  listed := [dir]
  todo := (scope.files.namesAt dir).map fun name => .path root (Path.join [dir, name])

/-- What is done where an entry stands. -/
def lookAt (scope : Scope) (root path : Bytes) : Entry → Searching Onward
  | .directory => do
    let below := path != root
    if below && (isHidden path || scope.isExcluded path) then pure {}
    else
      let new ← if below then visit scope path else pure true
      if new then pure (scope.entries root path) else pure {}
  | .file _ => do
    if !(path != root && isHidden path) && scope.isWanted path then add path
    pure {}
  | .link _ => do
    if path != root && isHidden path then pure {}
    else match scope.files.canonical? path with
      | none => pure {}
      | some target =>
        match scope.files.stat target with
        | .error _ => pure {}
        | .ok .directory => if scope.options.followSymlinks then pure { todo := [.walk target] } else pure {}
        | .ok _ =>
          if scope.isWanted path then add path
          pure {}

/-- What is done at a path by itself. -/
def look (scope : Scope) (root path : Bytes) : Searching Onward := do
  check
  match scope.files.lstat path with
  | .error e => throw (Failure.ofAccess e)
  | .ok e => lookAt scope root path e

/-- The path that an input stands for. -/
def inputPath (workDir text : Bytes) : Bytes :=
  if Path.isAbsolute text then Path.clean text else Path.join [workDir, text]

/-- A name that is passed over below a root. -/
def IsDotted (name : Bytes) : Prop := name.head? = some 0x2E

instance (name : Bytes) : Decidable (IsDotted name) := inferInstanceAs (Decidable (_ = _))

section
variable {workDir path name : Bytes}

lemma isHidden_text (h : Path.IsName name) (l : Location) :
    isHidden (Location.text (l ++ [name])) = false ↔ ¬ IsDotted name := by
  rw [isHidden, Location.base_text h, beq_eq_false_iff_ne, IsDotted]

lemma isAbsolute_clean (h : Path.isAbsolute path = true) : Path.isAbsolute (Path.clean path) = true := by
  obtain ⟨l, -, hl⟩ := Location.exists_clean_eq h
  rw [hl, Location.isAbsolute_text]

lemma isAbsolute_join (h : Path.isAbsolute path = true) (rest : Bytes) :
    Path.isAbsolute (Path.join [path, rest]) = true := by
  obtain ⟨l, -, hl⟩ := Location.exists_join_eq h rest
  rw [hl, Location.isAbsolute_text]

/-- The path of an input is the text of a location. -/
lemma exists_inputPath_eq (hwork : Path.isAbsolute workDir = true) (text : Bytes) :
    ∃ l : Location, l.Named ∧ inputPath workDir text = l.text := by
  rw [inputPath]
  split_ifs with habsolute
  · exact Location.exists_clean_eq habsolute
  · exact Location.exists_join_eq hwork text

end

/-- What a part of a search does by itself. -/
def step (scope : Scope) : Task → Searching Onward
  | .input text => do
    check.adapt fun f => f.within "discovery cancelled"
    match scope.files.stat (inputPath scope.workDir text) with
    | .error e => throw ((Failure.ofAccess e).within ("stat " ++ text))
    | .ok e =>
      if e.isDirectory then pure { todo := [.walk (inputPath scope.workDir text)] }
      else
        if !scope.isExcluded (inputPath scope.workDir text) then add (inputPath scope.workDir text)
        pure {}
  | .walk root => do
    if ← visit scope root then (look scope root root).adapt (Task.walk root).within
    else pure {}
  | .path root path => look scope root path

/-- A search that does some parts in order: the directories it lists, how it ends, and what it leaves behind. It
ends with the first failure. -/
inductive Runs (scope : Scope) : List Task → Search → List Bytes → Except Failure Unit → Search → Prop
  | done {s : Search} : Runs scope [] s [] (.ok ()) s
  | refused {t : Task} {ts : List Task} {s s' : Search} {f : Failure}
      (hstep : (step scope t).run s = (.error f, s')) : Runs scope (t :: ts) s [] (.error f) s'
  | failed {t : Task} {ts : List Task} {s s' s'' : Search} {next : Onward} {log : List Bytes} {f : Failure}
      (hstep : (step scope t).run s = (.ok next, s')) (htodo : Runs scope next.todo s' log (.error f) s'') :
      Runs scope (t :: ts) s (next.listed ++ log) (.error (t.within f)) s''
  | next {t : Task} {ts : List Task} {s s' s'' s''' : Search} {next : Onward} {log log' : List Bytes}
      {result : Except Failure Unit}
      (hstep : (step scope t).run s = (.ok next, s')) (htodo : Runs scope next.todo s' log (.ok ()) s'')
      (hrest : Runs scope ts s'' log' result s''') :
      Runs scope (t :: ts) s (next.listed ++ (log ++ log')) result s'''

section
variable {scope : Scope} {t : Task} {ts : List Task} {s s' s'' : Search} {log log' : List Bytes}
  {result result' : Except Failure Unit} {m : Searching Unit} {α β : Type}

/-- There is one run only. -/
theorem Runs.unique (h : Runs scope ts s log result s') (h' : Runs scope ts s log' result' s'') :
    log = log' ∧ result = result' ∧ s' = s'' := by
  induction h generalizing log' result' s'' with
  | done =>
    cases h'
    exact ⟨rfl, rfl, rfl⟩
  | refused hstep =>
    cases h' with
    | refused hstep' =>
      cases hstep.symm.trans hstep'
      exact ⟨rfl, rfl, rfl⟩
    | failed hstep' | next hstep' => cases hstep.symm.trans hstep'
  | failed hstep htodo ih =>
    cases h' with
    | refused hstep' => cases hstep.symm.trans hstep'
    | failed hstep' htodo' =>
      cases hstep.symm.trans hstep'
      obtain ⟨rfl, hresult, rfl⟩ := ih htodo'
      cases hresult
      exact ⟨rfl, rfl, rfl⟩
    | next hstep' htodo' =>
      cases hstep.symm.trans hstep'
      cases (ih htodo').2.1
  | next hstep htodo hrest ih ihrest =>
    cases h' with
    | refused hstep' => cases hstep.symm.trans hstep'
    | failed hstep' htodo' =>
      cases hstep.symm.trans hstep'
      cases (ih htodo').2.1
    | next hstep' htodo' hrest' =>
      cases hstep.symm.trans hstep'
      obtain ⟨rfl, -, rfl⟩ := ih htodo'
      obtain ⟨rfl, rfl, rfl⟩ := ihrest hrest'
      exact ⟨rfl, rfl, rfl⟩

/-- The search does what the parts do, in a finite run. -/
def Realises (scope : Scope) (m : Searching Unit) (ts : List Task) (s : Search) : Prop :=
  ∃ log, Runs scope ts s log (m.run s).1 (m.run s).2

lemma run_bind (m : Searching α) (f : α → Searching β) (s : Search) :
    (m >>= f).run s = ExceptT.bindCont f (m.run s).1 (m.run s).2 := rfl

lemma run_adapt (m : Searching α) (g : Failure → Failure) (s : Search) :
    (m.adapt g).run s = ((m.run s).1.mapError g, (m.run s).2) := rfl

lemma adapt_id (m : Searching α) : m.adapt id = m := by
  apply ExceptT.ext
  funext s
  rw [run_adapt]
  rcases m.run s with ⟨f | a, s'⟩ <;> rfl

@[simp] lemma adapt_pure (a : α) (g : Failure → Failure) : (pure a : Searching α).adapt g = pure a := rfl

lemma bind_adapt (m : Searching α) (f : α → Searching β) (g : Failure → Failure) :
    (m >>= f).adapt g = m.adapt g >>= fun a => (f a).adapt g := by
  apply ExceptT.ext
  funext s
  rw [run_adapt, run_bind, run_bind, run_adapt]
  cases (m.run s).1 with
  | ok a => rfl
  | error f => rfl

/-- A part of a search with all that comes of it; the bound is on how deep that is nested. -/
def perform (scope : Scope) (fuel : Nat) : Task → Searching Unit
  | .input text => input scope text
  | .walk root => do
    if ← visit scope root then (walkFrom scope fuel root root).adapt (Task.walk root).within
  | .path root path => walkFrom scope fuel root path

/-- A walk with a bound looks at its path, and does what that leaves to do with one less. -/
lemma walkFrom_succ (scope : Scope) (fuel : Nat) (root path : Bytes) : walkFrom scope (fuel + 1) root path =
    look scope root path >>= fun next => next.todo.forM (perform scope fuel) := by
  simp only [walkFrom, look, bind_assoc]
  congr 1
  funext _
  cases scope.files.lstat path with
  | error e => rfl
  | ok e =>
    cases e with
    | file data =>
      dsimp only [lookAt]
      split_ifs <;> simp
    | directory =>
      have hentries : ∀ new : Bool, (if new = true then
            (scope.files.namesAt path).forM fun name => walkFrom scope fuel root (Path.join [path, name])
          else pure ()) = (if new = true then pure (scope.entries root path) else pure {}) >>=
            fun next : Onward => next.todo.forM (perform scope fuel) := by
        intro new
        cases new
        · simp
        · simp [perform, Scope.entries]
      dsimp only [lookAt]
      split_ifs
      · simp
      · simp only [bind_assoc, hentries]
      · simp only [pure_bind, hentries]
    | link _ =>
      dsimp only [lookAt]
      by_cases hpassed : (path != root && isHidden path) = true
      · rw [if_pos hpassed, if_pos hpassed]
        rfl
      · rw [if_neg hpassed, if_neg hpassed]
        cases scope.files.canonical? path with
        | none => simp
        | some target =>
          dsimp only
          cases scope.files.stat target with
          | error e => simp
          | ok e =>
            cases e with
            | directory =>
              dsimp only
              split_ifs
              · simp [perform, Task.within]
              · simp
            | file _ | link _ =>
              dsimp only
              split_ifs <;> simp

/-- The same for a walk from its root. -/
lemma perform_walk_succ (scope : Scope) (fuel : Nat) (root : Bytes) : perform scope (fuel + 1) (.walk root) =
    step scope (.walk root) >>= fun next => (next.todo.forM (perform scope fuel)).adapt (Task.walk root).within := by
  simp only [perform, step, walkFrom_succ, bind_assoc]
  congr 1
  funext new
  split_ifs
  · rw [bind_adapt]
  · simp

/-- An input is looked at, and its directory walked with a bound that depends on the file system. -/
lemma input_eq (scope : Scope) (text : Bytes) : input scope text =
    step scope (.input text) >>= fun next => next.todo.forM (perform scope (depthBound scope.files)) := by
  simp only [input, step, bind_assoc]
  congr 1
  funext _
  rw [show (if Path.isAbsolute text = true then Path.clean text else Path.join [scope.workDir, text]) =
    inputPath scope.workDir text from rfl]
  cases scope.files.stat (inputPath scope.workDir text) with
  | error e => rfl
  | ok e =>
    dsimp only
    split_ifs
    · simp [perform, walk, Task.within]
    · simp
    · simp

/-- A part that does its own step and then what that leaves to do. -/
lemma realises_step {body : Onward → Searching Unit}
    (hbody : ∀ next s', (step scope t).run s = (.ok next, s') → Realises scope (body next) next.todo s') :
    Realises scope (step scope t >>= fun next => (body next).adapt t.within) [t] s := by
  rw [Realises, run_bind]
  rcases hstep : (step scope t).run s with ⟨f | next, s'⟩
  · exact ⟨[], .refused hstep⟩
  · obtain ⟨log, hlog⟩ := hbody next s' hstep
    change ∃ log, Runs scope [t] s log (((body next).adapt t.within).run s').1 (((body next).adapt t.within).run s').2
    rw [run_adapt]
    cases hresult : ((body next).run s').1 with
    | ok u =>
      rw [hresult] at hlog
      exact ⟨_, .next hstep hlog .done⟩
    | error f =>
      rw [hresult] at hlog
      exact ⟨_, .failed hstep hlog⟩

lemma Runs.cons (h : Runs scope [t] s log (.ok ()) s') (hrest : Runs scope ts s' log' result s'') :
    Runs scope (t :: ts) s (log ++ log') result s'' := by
  cases h with
  | next hstep htodo hdone =>
    cases hdone
    rw [List.append_nil, List.append_assoc]
    exact .next hstep htodo hrest

lemma Runs.cons_of_error {f : Failure} (h : Runs scope [t] s log (.error f) s') (ts : List Task) :
    Runs scope (t :: ts) s log (.error f) s' := by
  cases h with
  | refused hstep => exact .refused hstep
  | failed hstep htodo => exact .failed hstep htodo
  | next hstep htodo hdone => cases hdone

/-- Parts one after the other, where each leaves things as the next one needs them. -/
lemma realises_forM {f : Task → Searching Unit} (ready : Search → Prop)
    (hready : ∀ t s log result s', Runs scope [t] s log result s' → ready s → ready s')
    (hf : ∀ t ∈ ts, ∀ s, ready s → Realises scope (f t) [t] s) (hs : ready s) : Realises scope (ts.forM f) ts s := by
  induction ts generalizing s with
  | nil => exact ⟨[], .done⟩
  | cons t ts ih =>
    obtain ⟨ht, hts⟩ := List.forall_mem_cons.mp hf
    obtain ⟨log, hlog⟩ := ht s hs
    obtain ⟨log', hlog'⟩ := ih hts (hready _ _ _ _ _ hlog hs)
    change Realises scope (f t >>= fun _ => ts.forM f) (t :: ts) s
    rw [Realises, run_bind]
    rcases hfirst : (f t).run s with ⟨f | u, s'⟩
    · rw [hfirst] at hlog
      exact ⟨log, hlog.cons_of_error ts⟩
    · rw [hfirst] at hlog hlog'
      exact ⟨_, hlog.cons hlog'⟩

end

/-- By what a directory is known once it is marked. -/
def Scope.key (scope : Scope) (dir : Bytes) : Bytes := (scope.files.canonical? dir).getD dir

namespace Search

/-- Whoever asks whether to stop uses up one of the checks that pass. -/
def asked (s : Search) : Search := { s with cancellation := s.cancellation.next }

def take (s : Search) (path : Bytes) : Search :=
  if s.found.contains path then s else { s with found := path :: s.found }

def mark (s : Search) (key : Bytes) : Search := { s with visited := key :: s.visited }

lemma visited_take (s : Search) (path : Bytes) : (s.take path).visited = s.visited := by
  unfold take
  split_ifs <;> rfl

end Search

/-- All that can come of looking at a path. -/
inductive Looked (scope : Scope) (root path : Bytes) (s : Search) : Onward → Search → Prop
  | root (hdir : scope.files.lstat path = .ok .directory) (heq : path = root) :
      Looked scope root path s (scope.entries root path) s
  | enter (hdir : scope.files.lstat path = .ok .directory) (hbelow : path ≠ root) (hvisible : isHidden path = false)
      (hkept : scope.isExcluded path = false) (hnew : scope.key path ∉ s.visited) :
      Looked scope root path s (scope.entries root path) (s.mark (scope.key path))
  | again (hdir : scope.files.lstat path = .ok .directory) (hbelow : path ≠ root)
      (hvisited : scope.key path ∈ s.visited) : Looked scope root path s {} s
  | pass (hdir : scope.files.lstat path = .ok .directory) (hbelow : path ≠ root)
      (hpass : isHidden path = true ∨ scope.isExcluded path = true) : Looked scope root path s {} s
  | file {data : FileData} (hfile : scope.files.lstat path = .ok (.file data)) :
      Looked scope root path s {}
        (if (!(path != root && isHidden path) && scope.isWanted path) = true then s.take path else s)
  | follow {text target : Bytes} (hlink : scope.files.lstat path = .ok (.link text))
      (hcanonical : scope.files.canonical? path = some target) (hstat : scope.files.stat target = .ok .directory)
      (hfollow : scope.options.followSymlinks = true) : Looked scope root path s { todo := [.walk target] } s
  | skip {text : Bytes} (hlink : scope.files.lstat path = .ok (.link text))
      (hskip : isHidden path = false → ∀ target, scope.files.canonical? path = some target →
        scope.files.stat target = .ok .directory → scope.options.followSymlinks = false) (wanted : Bool) :
      Looked scope root path s {} (if wanted then s.take path else s)

section
variable {scope : Scope} {t : Task} {s s' : Search} {root path dir : Bytes} {next : Onward}

lemma run_check (s : Search) :
    check.run s = if s.cancellation.isDue = true then (.error Failure.cancelled, s) else (.ok (), s.asked) := by
  change ExceptT.run (if s.cancellation.isDue = true then (_ : Searching Unit) else _) s = _
  by_cases hdue : s.cancellation.isDue = true
  · rw [if_pos hdue, if_pos hdue]
    rfl
  · rw [if_neg hdue, if_neg hdue]
    rfl

lemma run_visit (scope : Scope) (dir : Bytes) (s : Search) : (visit scope dir).run s =
    if scope.key dir ∈ s.visited then (.ok false, s) else (.ok true, s.mark (scope.key dir)) := by
  change ExceptT.run (if s.visited.contains (scope.key dir) = true then (_ : Searching Bool) else _) s = _
  by_cases hvisited : scope.key dir ∈ s.visited
  · rw [if_pos hvisited, if_pos (List.contains_iff_mem.mpr hvisited)]
    rfl
  · rw [if_neg hvisited, if_neg (mt List.contains_iff_mem.mp hvisited)]
    rfl

/-- Taking a file, if that is to be done, leaves nothing to do. -/
lemma run_take (c : Prop) [Decidable c] (path : Bytes) (s : Search) :
    (if c then do add path; pure {} else pure {} : Searching Onward).run s =
      (.ok {}, if c then s.take path else s) := by
  split_ifs <;> rfl

lemma run_look (scope : Scope) (root path : Bytes) (s : Search) : (look scope root path).run s =
    if s.cancellation.isDue = true then (.error Failure.cancelled, s)
    else match scope.files.lstat path with
      | .error e => (.error (Failure.ofAccess e), s.asked)
      | .ok e => (lookAt scope root path e).run s.asked := by
  rw [look, run_bind, run_check]
  split_ifs
  · rfl
  · cases scope.files.lstat path <;> rfl

lemma looked_directory (root : Bytes) (hdir : scope.files.lstat path = .ok .directory) (s : Search) :
    ∃ next s', (lookAt scope root path .directory).run s = (.ok next, s') ∧ Looked scope root path s next s' := by
  rw [lookAt]
  by_cases hpass : (path != root && (isHidden path || scope.isExcluded path)) = true
  · rw [if_pos hpass]
    simp only [Bool.and_eq_true, Bool.or_eq_true, bne_iff_ne] at hpass
    exact ⟨_, _, rfl, .pass hdir hpass.1 hpass.2⟩
  rw [if_neg hpass]
  by_cases hroot : path = root
  · rw [if_neg (by simpa using hroot)]
    exact ⟨_, _, rfl, .root hdir hroot⟩
  · have hbelow : (path != root) = true := by simpa using hroot
    rw [hbelow, Bool.true_and, Bool.or_eq_true, not_or, Bool.not_eq_true, Bool.not_eq_true] at hpass
    rw [if_pos hbelow, run_bind, run_visit]
    split_ifs with hvisited
    · exact ⟨_, _, rfl, .again hdir hroot hvisited⟩
    · exact ⟨_, _, rfl, .enter hdir hroot hpass.1 hpass.2 hvisited⟩

/-- A link that leads to no directory is not followed. -/
lemma Looked.of_stat_ne {text target : Bytes} (root : Bytes) (hlink : scope.files.lstat path = .ok (.link text))
    (hcanonical : scope.files.canonical? path = some target) (hne : scope.files.stat target ≠ .ok .directory)
    (wanted : Bool) (s : Search) : Looked scope root path s {} (if wanted then s.take path else s) := by
  refine .skip hlink (fun _ target' htarget' hdir => ?_) wanted
  cases hcanonical.symm.trans htarget'
  exact absurd hdir hne

lemma looked_link {text : Bytes} (root : Bytes) (hlink : scope.files.lstat path = .ok (.link text)) (s : Search) :
    ∃ next s', (lookAt scope root path (.link text)).run s = (.ok next, s') ∧ Looked scope root path s next s' := by
  rw [lookAt]
  by_cases hpass : (path != root && isHidden path) = true
  · rw [if_pos hpass]
    rw [Bool.and_eq_true] at hpass
    exact ⟨_, _, rfl, .skip hlink (fun hvisible => nomatch hvisible.symm.trans hpass.2) false⟩
  rw [if_neg hpass]
  cases hcanonical : scope.files.canonical? path with
  | none => exact ⟨_, _, rfl, .skip hlink (fun _ target htarget => nomatch hcanonical.symm.trans htarget) false⟩
  | some target =>
    dsimp only
    cases hstat : scope.files.stat target with
    | error e => exact ⟨_, _, rfl, .of_stat_ne root hlink hcanonical (by rw [hstat]; nofun) false s⟩
    | ok e =>
      cases e with
      | directory =>
        dsimp only
        by_cases hfollow : scope.options.followSymlinks = true
        · rw [if_pos hfollow]
          exact ⟨_, _, rfl, .follow hlink hcanonical hstat hfollow⟩
        · rw [if_neg hfollow]
          exact ⟨_, _, rfl, .skip hlink (fun _ _ _ _ => by simpa using hfollow) false⟩
      | file _ | link _ =>
        exact ⟨_, _, run_take _ path s, .of_stat_ne root hlink hcanonical (by rw [hstat]; nofun) _ s⟩

/-- Nothing fails where an entry stands. -/
lemma looked {e : Entry} (root : Bytes) (hentry : scope.files.lstat path = .ok e) (s : Search) :
    ∃ next s', (lookAt scope root path e).run s = (.ok next, s') ∧ Looked scope root path s next s' := by
  cases e with
  | directory => exact looked_directory root hentry s
  | file data => exact ⟨_, _, run_take _ path s, .file hentry⟩
  | link text => exact looked_link root hentry s

lemma looked_of_run (h : (look scope root path).run s = (.ok next, s')) : Looked scope root path s.asked next s' := by
  rw [run_look] at h
  by_cases hdue : s.cancellation.isDue = true
  · rw [if_pos hdue] at h
    cases h
  rw [if_neg hdue] at h
  cases hentry : scope.files.lstat path with
  | error e =>
    rw [hentry] at h
    cases h
  | ok e =>
    rw [hentry] at h
    obtain ⟨next', s'', hrun, hlooked⟩ := looked root hentry s.asked
    cases h.symm.trans hrun
    exact hlooked

/-- What a search does by itself at an input that is there. -/
lemma step_input_cases {text : Bytes} (h : (step scope (.input text)).run s = (.ok next, s')) :
    scope.files.stat (inputPath scope.workDir text) = .ok .directory ∧
        next = { todo := [.walk (inputPath scope.workDir text)] } ∧ s' = s.asked ∨
      scope.files.stat (inputPath scope.workDir text) ≠ .ok .directory ∧ next = {} ∧ s'.visited = s.visited := by
  rw [step, run_bind, run_adapt, run_check] at h
  by_cases hdue : s.cancellation.isDue = true
  · rw [if_pos hdue] at h
    cases h
  rw [if_neg hdue] at h
  change ExceptT.run (match scope.files.stat (inputPath scope.workDir text) with
    | .error e => (_ : Searching Onward)
    | .ok e => _) s.asked = _ at h
  cases hstat : scope.files.stat (inputPath scope.workDir text) with
  | error e =>
    rw [hstat] at h
    cases h
  | ok e =>
    rw [hstat] at h
    cases e with
    | directory =>
      cases h
      exact .inl ⟨rfl, rfl, rfl⟩
    | file _ | link _ =>
      cases h.symm.trans (run_take _ (inputPath scope.workDir text) s.asked)
      refine .inr ⟨nofun, rfl, ?_⟩
      split_ifs
      · rw [Search.visited_take]
        rfl
      · rfl

lemma step_walk_of_marked (hvisited : scope.key root ∈ s.visited) :
    (step scope (.walk root)).run s = (.ok {}, s) := by
  rw [step, run_bind, run_visit, if_pos hvisited]
  rfl

lemma step_walk_of_new (hnew : scope.key root ∉ s.visited) : (step scope (.walk root)).run s =
    ((look scope root root).adapt (Task.walk root).within).run (s.mark (scope.key root)) := by
  rw [step, run_bind, run_visit, if_neg hnew]
  rfl

/-- What it does by itself at a root. -/
lemma step_walk_cases (h : (step scope (.walk root)).run s = (.ok next, s')) :
    scope.key root ∈ s.visited ∧ next = {} ∧ s' = s ∨
      scope.key root ∉ s.visited ∧ Looked scope root root (s.mark (scope.key root)).asked next s' := by
  by_cases hvisited : scope.key root ∈ s.visited
  · cases (step_walk_of_marked hvisited).symm.trans h
    exact .inl ⟨hvisited, rfl, rfl⟩
  · rw [step_walk_of_new hvisited, run_adapt] at h
    obtain ⟨hresult, rfl⟩ := Prod.mk.inj h
    cases hlook : (look scope root root).run (s.mark (scope.key root)) with
    | mk result s' =>
      rw [hlook] at hresult
      cases result with
      | error f => cases hresult
      | ok next' =>
        cases hresult
        exact .inr ⟨hvisited, looked_of_run hlook⟩

variable {inv : Search → Prop} {ts : List Task} {log : List Bytes} {result : Except Failure Unit}

lemma Stable.take (hinv : Stable inv) (hs : inv s) (path : Bytes) : inv (s.take path) := by
  unfold Search.take
  split_ifs with hfound
  · exact hs
  · rw [List.contains_iff_mem] at hfound
    exact hinv.add s path hs hfound

lemma Looked.keeps (hinv : Stable inv) (h : Looked scope root path s next s') (hs : inv s) : inv s' := by
  cases h with
  | root | again | pass | follow => exact hs
  | enter hdir hbelow hvisible hkept hnew => exact hinv.visit s _ hs hnew
  | file hfile =>
    split_ifs
    · exact hinv.take hs path
    · exact hs
  | skip hlink hskip wanted =>
    split_ifs
    · exact hinv.take hs path
    · exact hs

lemma keeps_look (hinv : Stable inv) (scope : Scope) (root path : Bytes) : Keeps inv (look scope root path) := by
  refine (keeps_check hinv).bind fun _ => ?_
  cases hentry : scope.files.lstat path with
  | error e => exact .throw _
  | ok e =>
    intro s hs
    obtain ⟨next, s', hrun, hlooked⟩ := looked root hentry s
    change inv ((lookAt scope root path e).run s).2
    rw [hrun]
    exact hlooked.keeps hinv hs

lemma keeps_step (hinv : Stable inv) (scope : Scope) (t : Task) : Keeps inv (step scope t) := by
  cases t with
  | input text =>
    refine ((keeps_check hinv).adapt _).bind fun _ => ?_
    split
    · exact .throw _
    · exact .ite (.pure _) (.ite ((keeps_add hinv _).bind fun _ => .pure _) (.pure _))
  | walk root =>
    refine (keeps_visit hinv scope root).bind fun new => ?_
    exact .ite ((keeps_look hinv scope root root).adapt _) (.pure _)
  | path root path => exact keeps_look hinv scope root path

/-- A run keeps what each step keeps. -/
theorem Runs.keeps (hinv : Stable inv) (h : Runs scope ts s log result s') (hs : inv s) : inv s' := by
  induction h with
  | done => exact hs
  | refused hstep => exact (keeps_step hinv scope _).of_run hstep hs
  | failed hstep htodo ih => exact ih ((keeps_step hinv scope _).of_run hstep hs)
  | next hstep htodo hrest ih ihrest => exact ihrest (ih ((keeps_step hinv scope _).of_run hstep hs))

lemma Runs.visited (h : Runs scope ts s log result s') : s.visited ⊆ s'.visited :=
  h.keeps (stable_visited s.visited) (List.Subset.refl _)

end
end LosslessTree.Discovery
