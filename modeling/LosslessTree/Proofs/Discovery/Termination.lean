import LosslessTree.Proofs.Discovery.Run
import LosslessTree.Proofs.Files.Linked
import Mathlib.Data.List.Basic

/-! Searches end, whichever way links lead. What is nested in a search alternates between directories and links to
them, and each directory is marked before anything below it is looked at; so there is no more nesting than twice
the number of directories that are not marked yet, and every directory is listed once. -/
namespace LosslessTree.Discovery

open FileSystem

/-- All directories of a file system. -/
def directories (files : FileSystem) : List Location :=
  ([] :: files.entries.map Prod.fst).filter fun l => files.entry? l = some .directory

/-- How many directories a search has not marked. -/
def unmarked (files : FileSystem) (s : Search) : Nat :=
  ((directories files).filter fun l => !s.visited.contains l.text).length

/-- How deep a part of a search can be nested. -/
def Task.cost (files : FileSystem) (s : Search) : Task → Nat
  | .walk _ => 2 * unmarked files s
  | .input _ | .path .. => 2 * unmarked files s + 1

/-- The parts that a search comes to: what is walked is the clean path of a directory, and what is looked at below a
root is a clean path that goes on from there. -/
inductive Task.Fits (files : FileSystem) : Task → Prop
  | walk {root : Location} (named : root.Named) (directory : files.stat root.text = .ok .directory) :
      Fits files (.walk root.text)
  | path {root : Location} {names : List Bytes} (named : Location.Named (root ++ names)) (below : names ≠ []) :
      Fits files (.path root.text (Location.text (root ++ names)))

section
variable {files : FileSystem} {scope : Scope} {t : Task} {ts : List Task} {s s' s'' : Search} {next : Onward}
  {log log' : List Bytes} {result : Except Failure Unit} {l root : Location} {names : List Bytes} {path : Bytes}

lemma mem_directories (hl : files.entry? l = some .directory) : l ∈ directories files := by
  refine List.mem_filter.mpr ⟨?_, by simpa using hl⟩
  by_cases hnil : l = []
  · rw [hnil]
    exact List.mem_cons_self
  · exact List.mem_cons_of_mem _ ((isSome_entry?_iff hnil).mp (by rw [hl, Option.isSome_some]))

lemma unmarked_le (files : FileSystem) (s : Search) : unmarked files s ≤ files.entries.length + 1 := by
  have hall : (directories files).length ≤ files.entries.length + 1 := by
    rw [directories]
    exact (List.length_filter_le _ _).trans (by simp)
  exact (List.length_filter_le _ _).trans hall

lemma unmarked_mono (h : s.visited ⊆ s'.visited) : unmarked files s' ≤ unmarked files s := by
  refine (List.monotone_filter_right _ fun l hl => ?_).length_le
  simp only [Bool.not_eq_true', List.contains_eq_mem, decide_eq_false_iff_not] at hl ⊢
  exact fun hmem => hl (h hmem)

/-- Marking a directory for the first time counts. -/
lemma unmarked_mark_lt (hl : files.entry? l = some .directory) (hnew : l.text ∉ s.visited) :
    unmarked files (s.mark l.text) < unmarked files s := by
  have hfilter : ((directories files).filter fun m => !(s.mark l.text).visited.contains m.text) =
      ((directories files).filter fun m => !s.visited.contains m.text).filter fun m => m.text != l.text := by
    rw [List.filter_filter]
    apply List.filter_congr
    intro m _
    rw [Search.mark, List.contains_cons, Bool.not_or]
    rfl
  rw [unmarked, unmarked, hfilter, List.length_filter_lt_length_iff_exists]
  exact ⟨l, List.mem_filter.mpr ⟨mem_directories hl, by simpa using hnew⟩, by simp⟩

lemma Task.cost_mono (h : s.visited ⊆ s'.visited) (t : Task) : t.cost files s' ≤ t.cost files s := by
  have hle : unmarked files s' ≤ unmarked files s := unmarked_mono h
  cases t <;> simp only [Task.cost] <;> omega

/-- The directories that are listed from one state of a search to another: each is new, and is marked. -/
structure Fresh (files : FileSystem) (log : List Bytes) (s s' : Search) : Prop where
  directory : ∀ path ∈ log, ∃ dir, files.locate true path = .ok (.found dir) ∧
    files.entry? dir = some .directory ∧ dir.text ∉ s.visited ∧ dir.text ∈ s'.visited
  once : log.Pairwise fun p q => files.locate true p ≠ files.locate true q

lemma Fresh.nil (files : FileSystem) (s s' : Search) : Fresh files [] s s' := ⟨List.forall_mem_nil _, .nil⟩

lemma Fresh.append (h : Fresh files log s s') (h' : Fresh files log' s' s'') (hs : s.visited ⊆ s'.visited)
    (hs' : s'.visited ⊆ s''.visited) : Fresh files (log ++ log') s s'' where
  directory := by
    refine List.forall_mem_append.mpr ⟨fun path hpath => ?_, fun path hpath => ?_⟩
    · obtain ⟨dir, hlocate, hdir, hnew, hmarked⟩ := h.directory path hpath
      exact ⟨dir, hlocate, hdir, hnew, hs' hmarked⟩
    · obtain ⟨dir, hlocate, hdir, hnew, hmarked⟩ := h'.directory path hpath
      exact ⟨dir, hlocate, hdir, fun hmem => hnew (hs hmem), hmarked⟩
  once := by
    refine List.pairwise_append.mpr ⟨h.once, h'.once, fun p hp q hq heq => ?_⟩
    -- what is listed later was not marked by then
    obtain ⟨dir, hlocate, -, -, hmarked⟩ := h.directory p hp
    obtain ⟨dir', hlocate', -, hnew, -⟩ := h'.directory q hq
    cases hlocate.symm.trans (heq.trans hlocate')
    exact hnew hmarked

/-- What there is to know of a step: what it leaves to do fits and is less deep, and it lists a new directory or
none. -/
structure Stepped (scope : Scope) (t : Task) (s : Search) (next : Onward) (s' : Search) : Prop where
  fits : ∀ t' ∈ next.todo, t'.Fits scope.files
  cost : ∀ t' ∈ next.todo, t'.cost scope.files s' < t.cost scope.files s
  fresh : Fresh scope.files next.listed s s'

lemma stepped_nothing (scope : Scope) (t : Task) (s s' : Search) : Stepped scope t s {} s' where
  fits := List.forall_mem_nil _
  cost := List.forall_mem_nil _
  fresh := .nil _ s s'

lemma key_of_locate (h : scope.files.locate true path = .ok (.found l)) : scope.key path = l.text := by
  rw [Scope.key, canonical?_of_locate h, Option.getD_some]

/-- The entries of a directory stand below the root of the walk. -/
lemma fits_entries (h : scope.files.Proper) (hnamed : Location.Named (root ++ names))
    (hlocate : scope.files.locate true (Location.text (root ++ names)) = .ok (.found l)) :
    ∀ t ∈ (scope.entries root.text (Location.text (root ++ names))).todo, t.Fits scope.files := by
  intro t ht
  obtain ⟨name, hname, rfl⟩ := List.mem_map.mp ht
  simp only [namesAt, hlocate] at hname
  obtain ⟨e, he⟩ := Option.isSome_iff_exists.mp (mem_names.mp hname)
  have hlegal : Path.IsName name := (h.legal _ e he name (by simp)).toIsName
  rw [Location.join_text hnamed hlegal, List.append_assoc]
  exact .path (by rw [← List.append_assoc]; exact hnamed.concat hlegal) (by simp)

/-- A directory is listed when it is marked. -/
lemma stepped_entries (h : scope.files.Proper) (hnamed : Location.Named (root ++ names))
    (hlocate : scope.files.locate true (Location.text (root ++ names)) = .ok (.found l))
    (hl : scope.files.entry? l = some .directory) (hnew : l.text ∉ s.visited) (hmarked : s'.visited = l.text :: s.visited)
    (hcost : 2 * unmarked scope.files s ≤ t.cost scope.files s) :
    Stepped scope t s (scope.entries root.text (Location.text (root ++ names))) s' where
  fits := fits_entries h hnamed hlocate
  cost := by
    intro t' ht'
    obtain ⟨name, -, rfl⟩ := List.mem_map.mp ht'
    have hlt := unmarked_mark_lt hl hnew
    have hle : unmarked scope.files s' ≤ unmarked scope.files (s.mark l.text) :=
      unmarked_mono (by rw [hmarked]; exact List.Subset.refl _)
    refine Nat.lt_of_lt_of_le ?_ hcost
    change 2 * unmarked scope.files s' + 1 < 2 * unmarked scope.files s
    omega
  fresh := by
    refine ⟨List.forall_mem_singleton.mpr ⟨l, hlocate, hl, hnew, ?_⟩, List.pairwise_singleton _ _⟩
    rw [hmarked]
    exact List.mem_cons_self

/-- A link is followed to the clean path of a directory. -/
lemma fits_walk (h : scope.files.Proper) {target : Bytes} (hpath : Path.isAbsolute path = true)
    (hcanonical : scope.files.canonical? path = some target) (hstat : scope.files.stat target = .ok .directory) :
    (Task.walk target).Fits scope.files := by
  obtain ⟨l, rfl, hlocate, hl⟩ := h.exists_of_canonical? hpath hcanonical hstat
  exact .walk (h.named hl) hstat

lemma stepped_input (hwork : Path.isAbsolute scope.workDir = true) {text : Bytes}
    (hstep : (step scope (.input text)).run s = (.ok next, s')) : Stepped scope (.input text) s next s' := by
  rcases step_input_cases hstep with ⟨hstat, rfl, rfl⟩ | ⟨-, rfl, -⟩
  · obtain ⟨l, hl, hpath⟩ := exists_inputPath_eq hwork text
    rw [hpath] at hstat ⊢
    exact {
      fits := List.forall_mem_singleton.mpr (.walk hl hstat)
      cost := List.forall_mem_singleton.mpr (Nat.lt_succ_self _)
      fresh := .nil _ s _ }
  · exact stepped_nothing scope _ s s'

lemma stepped (h : scope.files.Proper) (ht : t.Fits scope.files)
    (hstep : (step scope t).run s = (.ok next, s')) : Stepped scope t s next s' := by
  cases ht with
  | @walk root named directory =>
    obtain ⟨l, hlocate, hl⟩ := h.exists_of_stat (Location.isAbsolute_text root) directory
    rcases step_walk_cases hstep with ⟨-, rfl, -⟩ | ⟨hnew, hlooked⟩
    · exact stepped_nothing scope _ s s'
    · rw [key_of_locate hlocate] at hnew hlooked
      cases hlooked with
      | root hdir heq =>
        have hentries : Stepped scope (.walk root.text) s (scope.entries root.text (Location.text (root ++ [])))
            (s.mark l.text).asked :=
          stepped_entries h (by rwa [List.append_nil]) (by rwa [List.append_nil]) hl hnew rfl (Nat.le_refl _)
        rwa [List.append_nil] at hentries
      | enter hdir hbelow => exact absurd rfl hbelow
      | again | pass | file | skip => exact stepped_nothing scope _ s _
      | follow hlink hcanonical hstat hfollow =>
        have hlt := unmarked_mark_lt hl hnew
        exact {
          fits := List.forall_mem_singleton.mpr (fits_walk h (Location.isAbsolute_text root) hcanonical hstat)
          cost := List.forall_mem_singleton.mpr (Nat.mul_lt_mul_of_pos_left hlt (by decide))
          fresh := .nil _ s _ }
  | @path root names named below =>
    have hlooked := looked_of_run hstep
    cases hlooked with
    | root hdir heq =>
      have hroot := Location.text_injective named (List.forall_mem_append.mp named).1 heq
      exact absurd (by simpa using hroot) below
    | enter hdir hbelow hvisible hkept hnew =>
      obtain ⟨l, hlocate, hl⟩ := h.exists_of_lstat (Location.isAbsolute_text _) hdir rfl
      rw [key_of_locate hlocate] at hnew ⊢
      exact stepped_entries h named hlocate hl hnew rfl (Nat.le_succ _)
    | again | pass | file | skip => exact stepped_nothing scope _ s _
    | follow hlink hcanonical hstat hfollow =>
      exact {
        fits := List.forall_mem_singleton.mpr (fits_walk h (Location.isAbsolute_text _) hcanonical hstat)
        cost := List.forall_mem_singleton.mpr (Nat.lt_succ_self _)
        fresh := .nil _ s _ }

/-- A run lists each directory at most once, and none that was marked before. -/
theorem Runs.fresh (h : Runs scope ts s log result s') (hproper : scope.files.Proper)
    (hwork : Path.isAbsolute scope.workDir = true)
    (hts : ∀ t ∈ ts, (∃ text, t = .input text) ∨ t.Fits scope.files) : Fresh scope.files log s s' := by
  have hfirst : ∀ {t s next s'}, (∃ text, t = .input text) ∨ t.Fits scope.files →
      (step scope t).run s = (.ok next, s') → Stepped scope t s next s' := by
    rintro t s next s' (⟨text, rfl⟩ | ht) hstep
    · exact stepped_input hwork hstep
    · exact stepped hproper ht hstep
  have hgrow : ∀ {t s s'} {result : Except Failure Onward}, (step scope t).run s = (result, s') →
      s.visited ⊆ s'.visited := fun hstep =>
    (keeps_step (stable_visited _) scope _).of_run hstep (List.Subset.refl _)
  induction h with
  | @done s => exact .nil _ s s
  | @refused t ts s s' f hstep => exact .nil _ s s'
  | failed hstep htodo ih =>
    have hstepped := hfirst (List.forall_mem_cons.mp hts).1 hstep
    exact hstepped.fresh.append (ih fun t ht => .inr (hstepped.fits t ht)) (hgrow hstep) htodo.visited
  | next hstep htodo hrest ih ihrest =>
    obtain ⟨ht, hts⟩ := List.forall_mem_cons.mp hts
    have hstepped := hfirst ht hstep
    have hbelow := (ih fun t ht => .inr (hstepped.fits t ht)).append (ihrest hts) htodo.visited hrest.visited
    exact hstepped.fresh.append hbelow (hgrow hstep) (List.Subset.trans htodo.visited hrest.visited)

/-- What a part leaves to do is done with the rest of a bound. -/
lemma realises_todo {fuel : Nat} {todo : List Task}
    (htodo : ∀ t ∈ todo, ∀ s, t.cost scope.files s ≤ fuel → Realises scope (perform scope fuel t) [t] s)
    (hcost : ∀ t ∈ todo, t.cost scope.files s ≤ fuel) : Realises scope (todo.forM (perform scope fuel)) todo s :=
  realises_forM (fun s' => s.visited ⊆ s'.visited)
    (fun _ _ _ _ _ hruns hvisited => List.Subset.trans hvisited hruns.visited)
    (fun t ht s' hvisited => htodo t ht s' ((t.cost_mono hvisited).trans (hcost t ht))) (List.Subset.refl _)

/-- A bound that allows for the directories that are not marked yet is never met. The induction is on the bound:
every step leaves to do what is less deep. -/
lemma realises_perform (h : scope.files.Proper) {fuel : Nat} (ht : t.Fits scope.files)
    (hcost : t.cost scope.files s ≤ fuel) : Realises scope (perform scope fuel t) [t] s := by
  induction fuel generalizing t s with
  | zero =>
    cases ht with
    | path named below => exact absurd hcost (Nat.not_succ_le_zero _)
    | @walk root named directory =>
      -- all directories are marked, so the walk stops at its root
      have hzero : unmarked scope.files s = 0 := by
        change 2 * unmarked scope.files s ≤ 0 at hcost
        omega
      obtain ⟨l, hlocate, hl⟩ := h.exists_of_stat (Location.isAbsolute_text root) directory
      have hvisited : scope.key root.text ∈ s.visited := by
        rw [key_of_locate hlocate]
        by_contra hnew
        exact absurd (unmarked_mark_lt hl hnew) (by omega)
      have hperform : (perform scope 0 (.walk root.text)).run s = (.ok (), s) := by
        rw [perform, run_bind, run_visit, if_pos hvisited]
        rfl
      rw [Realises, hperform]
      exact ⟨_, .next (step_walk_of_marked hvisited) .done .done⟩
  | succ fuel ih =>
    have hbody : ∀ next s', (step scope t).run s = (.ok next, s') →
        Realises scope (next.todo.forM (perform scope fuel)) next.todo s' := by
      intro next s' hstep
      have hstepped := stepped h ht hstep
      refine realises_todo (fun t' ht' s hs => ih (hstepped.fits t' ht') hs) fun t' ht' => ?_
      exact Nat.le_of_lt_succ ((hstepped.cost t' ht').trans_le hcost)
    cases ht with
    | walk named directory =>
      rw [perform_walk_succ]
      exact realises_step hbody
    | path named below =>
      have hrealises := realises_step hbody
      simp only [Task.within, adapt_id] at hrealises
      rwa [perform, walkFrom_succ]

lemma realises_input (h : scope.files.Proper) (hwork : Path.isAbsolute scope.workDir = true) (text : Bytes) (s : Search) :
    Realises scope (input scope text) [.input text] s := by
  have hbody : ∀ next s', (step scope (.input text)).run s = (.ok next, s') →
      Realises scope (next.todo.forM (perform scope (depthBound scope.files))) next.todo s' := by
    intro next s' hstep
    have hstepped := stepped_input hwork hstep
    refine realises_todo (fun t ht s hs => realises_perform h (hstepped.fits t ht) hs) fun t ht => ?_
    have hlt : t.cost scope.files s' < 2 * unmarked scope.files s + 1 := hstepped.cost t ht
    have hle := unmarked_le scope.files s
    rw [depthBound]
    omega
  have hrealises := realises_step hbody
  simp only [Task.within, adapt_id] at hrealises
  rwa [input_eq]

end

/-- What a search for the files of a run does, without a bound: the directories it lists, and what it answers. -/
inductive Discovers (r : Registry) (files : FileSystem) (o : RunOptions) (c : Cancellation) :
    List Bytes → Except Failure (List Bytes) × Cancellation → Prop
  | refused {f : Failure} (hwork : resolveWorkDir files o.workingDir = .error f) :
      Discovers r files o c [] (.error (f.within "resolve working directory"), c)
  | searched {workDir : Bytes} {log : List Bytes} {result : Except Failure Unit} {s : Search}
      (hwork : resolveWorkDir files o.workingDir = .ok workDir)
      (hruns : Runs ⟨files, workDir, o.extensions r, o⟩ (o.inputs.map .input) { cancellation := c } log result s) :
      Discovers r files o c log (result.map fun _ => Bytes.sort s.found, s.cancellation)

lemma isAbsolute_of_resolveWorkDir {files : FileSystem} {dir workDir : Bytes}
    (h : resolveWorkDir files dir = .ok workDir) : Path.isAbsolute workDir = true := by
  have hcurrent : ∀ {path}, files.workingDirectory = .ok path → Path.isAbsolute path = true := by
    intro path hpath
    rw [workingDirectory] at hpath
    split_ifs at hpath
    cases hpath
    exact Location.isAbsolute_text _
  have hresolved : ∀ {answer : Except AccessError Bytes} {g : AccessError → Failure},
      answer.mapError g = .ok workDir → answer = .ok workDir := by
    rintro (f | path) g hanswer
    · cases hanswer
    · exact congrArg _ (Except.ok.inj hanswer)
  unfold resolveWorkDir at h
  split_ifs at h
  · exact hcurrent (hresolved h)
  · have habsolute := hresolved h
    unfold absolute at habsolute
    split_ifs at habsolute with hdir
    · cases habsolute
      exact isAbsolute_clean hdir
    · cases hpath : files.workingDirectory with
      | error f =>
        rw [hpath] at habsolute
        cases habsolute
      | ok path =>
        rw [hpath] at habsolute
        cases habsolute
        exact isAbsolute_join (hcurrent hpath) dir

lemma discover_eq {r : Registry} {files : FileSystem} {o : RunOptions} {c : Cancellation} {workDir : Bytes}
    (hwork : resolveWorkDir files o.workingDir = .ok workDir) :
    let search := (o.inputs.forM (input ⟨files, workDir, o.extensions r, o⟩)).run { cancellation := c }
    discover r files o c = (search.1.map fun _ => Bytes.sort search.2.found, search.2.cancellation) := by
  rw [discover, hwork]
  dsimp only
  generalize (o.inputs.forM (input ⟨files, workDir, o.extensions r, o⟩)).run { cancellation := c } = search
  rcases search with ⟨f | _, s⟩ <;> rfl

/-- A search has a run, which says what it answers. -/
lemma exists_discovers (r : Registry) {files : FileSystem} (h : files.Proper) (o : RunOptions) (c : Cancellation) :
    ∃ log, Discovers r files o c log (discover r files o c) := by
  cases hwork : resolveWorkDir files o.workingDir with
  | error f =>
    have hdiscover : discover r files o c = (.error (f.within "resolve working directory"), c) := by
      rw [discover, hwork]
    exact ⟨[], hdiscover ▸ .refused hwork⟩
  | ok workDir =>
    have habsolute := isAbsolute_of_resolveWorkDir hwork
    have hrealises : Realises ⟨files, workDir, o.extensions r, o⟩
        ((o.inputs.map Task.input).forM (perform ⟨files, workDir, o.extensions r, o⟩ 0)) (o.inputs.map .input)
        { cancellation := c } :=
      realises_forM (fun _ => True) (fun _ _ _ _ _ _ _ => trivial)
        (List.forall_mem_map.mpr fun text _ s _ => realises_input h habsolute text s) trivial
    obtain ⟨log, hruns⟩ := hrealises
    rw [List.forM_eq_forM, List.forM_map] at hruns
    rw [discover_eq hwork]
    exact ⟨log, .searched hwork hruns⟩

lemma Discovers.unique {r : Registry} {files : FileSystem} {o : RunOptions} {c : Cancellation} {log log' : List Bytes}
    {outcome outcome' : Except Failure (List Bytes) × Cancellation} (h : Discovers r files o c log outcome)
    (h' : Discovers r files o c log' outcome') : log = log' ∧ outcome = outcome' := by
  cases h with
  | refused hwork =>
    cases h' with
    | refused hwork' =>
      cases hwork.symm.trans hwork'
      exact ⟨rfl, rfl⟩
    | searched hwork' => cases hwork.symm.trans hwork'
  | searched hwork hruns =>
    cases h' with
    | refused hwork' => cases hwork.symm.trans hwork'
    | searched hwork' hruns' =>
      cases hwork.symm.trans hwork'
      obtain ⟨rfl, rfl, rfl⟩ := hruns.unique hruns'
      exact ⟨rfl, rfl⟩

lemma Discovers.fresh {r : Registry} {files : FileSystem} {o : RunOptions} {c : Cancellation} {log : List Bytes}
    {outcome : Except Failure (List Bytes) × Cancellation} (h : Discovers r files o c log outcome)
    (hproper : files.Proper) : ∃ s s', Fresh files log s s' := by
  cases h with
  | refused hwork => exact ⟨{}, {}, .nil files {} {}⟩
  | @searched workDir log result s hwork hruns =>
    refine ⟨_, _, hruns.fresh hproper (isAbsolute_of_resolveWorkDir hwork) ?_⟩
    exact List.forall_mem_map.mpr fun text _ => .inl ⟨text, rfl⟩

/-- A search for the files of a run ends, whichever way links lead and whatever it is asked to do: it has one run,
which is finite. It lists the entries of no directory twice, whatever paths lead there, and names no file twice. -/
theorem discover_terminates (r : Registry) {files : FileSystem} (h : files.Proper) (o : RunOptions) (c : Cancellation) :
    (∃ log, Discovers r files o c log (discover r files o c) ∧
      (∀ log' outcome, Discovers r files o c log' outcome → log' = log ∧ outcome = discover r files o c) ∧
      (∀ path ∈ log, ∃ dir, files.locate true path = .ok (.found dir) ∧ files.entry? dir = some .directory) ∧
      log.Pairwise fun p q => files.locate true p ≠ files.locate true q) ∧
    ∀ paths, (discover r files o c).1 = .ok paths → paths.Nodup := by
  obtain ⟨log, hlog⟩ := exists_discovers r h o c
  obtain ⟨s, s', hfresh⟩ := hlog.fresh h
  refine ⟨⟨log, hlog, fun log' outcome h' => h'.unique hlog, fun path hpath => ?_, hfresh.once⟩, fun paths hpaths => ?_⟩
  · obtain ⟨dir, hlocate, hdir, -⟩ := hfresh.directory path hpath
    exact ⟨dir, hlocate, hdir⟩
  · refine (discover_increasing r files o c hpaths).imp ?_
    rintro a _ hlt rfl
    exact List.lt_irrefl a hlt

section Cyclic

/-- Links to the directory that they stand in and to the one above. -/
def cyclic : FileSystem where
  entries := [(["w"], .directory), (["w", "a.calc"], .file ⟨[], 0o644, .outside 0⟩), (["w", "loop"], .link "."),
    (["w", "d"], .directory), (["w", "d", "up"], .link ".."), (["w", "d", "b.calc"], .file ⟨[], 0o644, .outside 0⟩)]
  workDir := ["w"]

def followed : RunOptions where
  paths := ["d", "."]
  followSymlinks := true

lemma proper_cyclic : cyclic.Proper := proper_of_entries (by decide) (by decide)

lemma discover_cyclic :
    discover ⟨[Language.ofCalc]⟩ cyclic followed .never = (.ok ["/w/a.calc", "/w/d/b.calc"], .never) := by
  decide

/-- Each directory is reached from the other by a link, and by links from itself. -/
theorem discover_terminates_cyclic : cyclic.Proper ∧ ∃ log,
    Discovers ⟨[Language.ofCalc]⟩ cyclic followed .never log (.ok ["/w/a.calc", "/w/d/b.calc"], .never) ∧
      log.Pairwise fun p q => cyclic.locate true p ≠ cyclic.locate true q := by
  obtain ⟨⟨log, hlog, -, -, honce⟩, -⟩ := discover_terminates ⟨[Language.ofCalc]⟩ proper_cyclic followed .never
  exact ⟨proper_cyclic, log, discover_cyclic ▸ hlog, honce⟩

end Cyclic
end LosslessTree.Discovery
