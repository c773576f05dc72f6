import LosslessTree.Config.Locate
import LosslessTree.Proofs.Files.Location
import Mathlib.Data.List.Induction
import Mathlib.Logic.Function.Iterate

/-! The search for the configuration of a project. It climbs from a directory to the one above, and ends where
it finds a file, or else at the first repository, at the home directory or at the root. -/
namespace LosslessTree

variable {files : FileSystem} {env : Environment} {path name : Bytes} {l : Location}

namespace Config

lemma ancestors_text_nil : ancestors (Location.text []) = [Location.text []] := by decide

/-- The directories that are looked into are those met on the climb. -/
lemma ancestors_text_concat (h : Location.Named (l ++ [name])) :
    ancestors (Location.text (l ++ [name])) = Location.text (l ++ [name]) :: ancestors l.text := by
  have hl : l.Named := (List.forall_mem_append.mp h).1
  rw [ancestors, ancestors, Location.components_text_eq h, Location.components_text_eq hl, List.length_append,
    List.length_singleton, List.range_succ_eq_map, List.map_cons, List.map_map, Nat.sub_zero,
    List.take_of_length_le (by simp)]
  refine congrArg _ (List.map_congr_left fun n _ => ?_)
  rw [Function.comp_apply, Nat.succ_eq_add_one, Nat.add_sub_add_right, List.take_append_of_le_length (Nat.sub_le _ _)]

/-- There is something at a path, and it is no directory. -/
def IsFile (files : FileSystem) (path : Bytes) : Prop :=
  ∃ entry, files.stat path = .ok entry ∧ entry.isDirectory = false

/-- The file of a directory that is taken: the first of the names for which there is one. -/
structure Taken (files : FileSystem) (dir path : Bytes) : Prop where
  isFile : IsFile files path
  first : ∃ before name after, projectNames = before ++ name :: after ∧ path = Path.join [dir, name] ∧
    ∀ other ∈ before, ¬ IsFile files (Path.join [dir, other])

/-- A directory that version control has marked. -/
def IsRepository (files : FileSystem) (dir : Bytes) : Prop :=
  ∃ mark ∈ repositoryMarks, ∃ entry, files.stat (Path.join [dir, mark]) = .ok entry ∧ entry.isDirectory = true

/-- The directory that a user's home is said to be. -/
def IsHome (env : Environment) (dir : Bytes) : Prop :=
  ∃ home, env.value? "HOME" = some home ∧ Path.clean home = dir

/-- A directory that the search climbs on from; `home` tells where it may not. -/
structure Passed (files : FileSystem) (home : Bytes → Prop) (dir : Bytes) : Prop where
  bare : ∀ path, ¬ Taken files dir path
  not_repository : ¬ IsRepository files dir
  not_home : ¬ home dir

/-- The file of the nearest directory that has one, where the climb gets there. -/
def Nearest (files : FileSystem) (home : Bytes → Prop) (start path : Bytes) : Prop :=
  ∃ n, Taken files (Path.dir^[n] start) path ∧ ∀ m < n, Passed files home (Path.dir^[m] start)

lemma hasFile_iff : files.hasFile path = true ↔ IsFile files path := by
  unfold FileSystem.hasFile IsFile
  cases files.stat path with
  | error e => simp
  | ok entry => simp

lemma hasDirectory_iff :
    files.hasDirectory path = true ↔ ∃ entry, files.stat path = .ok entry ∧ entry.isDirectory = true := by
  unfold FileSystem.hasDirectory
  cases files.stat path with
  | error e => simp
  | ok entry => simp

variable {dir : Bytes} {home : Bytes → Prop}

lemma fileIn?_eq_some_iff : fileIn? files dir = some path ↔ Taken files dir path := by
  rw [fileIn?, List.find?_map, Option.map_eq_some_iff]
  constructor
  · rintro ⟨name, hfind, rfl⟩
    obtain ⟨hfile, before, after, hnames, hbefore⟩ := List.find?_eq_some_iff_append.mp hfind
    refine ⟨hasFile_iff.mp hfile, before, name, after, hnames, rfl, fun other hother hfile => ?_⟩
    simpa [hasFile_iff.mpr hfile] using hbefore other hother
  · rintro ⟨hfile, before, name, after, hnames, rfl, hbefore⟩
    refine ⟨name, List.find?_eq_some_iff_append.mpr ⟨hasFile_iff.mpr hfile, before, after, hnames, ?_⟩, rfl⟩
    intro other hother
    simpa [Bool.not_eq_true, ← hasFile_iff] using hbefore other hother

lemma Taken.unique {other : Bytes} (h : Taken files dir path) (h' : Taken files dir other) : path = other :=
  Option.some.inj ((fileIn?_eq_some_iff.mpr h).symm.trans (fileIn?_eq_some_iff.mpr h'))

lemma isRepository_iff :
    repositoryMarks.any (fun mark => files.hasDirectory (Path.join [dir, mark])) = true ↔ IsRepository files dir := by
  simp only [List.any_eq_true, hasDirectory_iff, IsRepository]

lemma ne_nil_of_value? {value : Bytes} (h : env.value? name = some value) : value ≠ [] := by
  simpa using (Option.filter_eq_some_iff.mp h).2

lemma isBoundary_iff (env : Environment) : isBoundary files ((env.value? "HOME").getD []) dir = true ↔
    IsRepository files dir ∨ env.value? "HOME" = some dir := by
  rw [isBoundary, Bool.or_eq_true, isRepository_iff]
  refine or_congr_right ?_
  cases hvalue : env.value? "HOME" with
  | none =>
    simp only [Option.getD_none, List.isEmpty_nil, Bool.not_true, Bool.false_and, Bool.false_eq_true, reduceCtorEq]
  | some home =>
    have hset : home.isEmpty = false := List.isEmpty_eq_false_iff.mpr (ne_nil_of_value? hvalue)
    rw [Option.getD_some, hset, Bool.not_false, Bool.true_and, beq_iff_eq, Option.some_inj, eq_comm]

/-- One round of the climb. -/
lemma nearest_iff (dir : Bytes) :
    Nearest files home dir path ↔
      Taken files dir path ∨ Passed files home dir ∧ Nearest files home (Path.dir dir) path := by
  constructor
  · rintro ⟨n, htaken, hpassed⟩
    cases n with
    | zero => exact .inl htaken
    | succ n =>
      exact .inr ⟨hpassed 0 n.succ_pos, n, htaken, fun m hm => hpassed (m + 1) (Nat.succ_lt_succ hm)⟩
  · rintro (htaken | ⟨hpassed, n, htaken, habove⟩)
    · exact ⟨0, htaken, fun m hm => absurd hm (Nat.not_lt_zero m)⟩
    · refine ⟨n + 1, htaken, fun m hm => ?_⟩
      cases m with
      | zero => exact hpassed
      | succ m => exact habove m (Nat.lt_of_succ_lt_succ hm)

/-- At the root the climb is over. -/
lemma nearest_root_iff : Nearest files home (Location.text []) path ↔ Taken files (Location.text []) path := by
  refine ⟨fun ⟨n, htaken, _⟩ => ?_, fun h => (nearest_iff _).mpr (.inl h)⟩
  rwa [Function.iterate_fixed Location.dir_text_nil] at htaken

/-- What one directory adds to the search in those above it. -/
lemma searchIn_cons (env : Environment) (dir : Bytes) {rest : List Bytes} {above : Option Bytes}
    (habove : (searchIn files ((env.value? "HOME").getD []) rest .never).1 = .ok above) :
    ∃ found, (searchIn files ((env.value? "HOME").getD []) (dir :: rest) .never).1 = .ok found ∧
      ∀ path, found = some path ↔
        Taken files dir path ∨ Passed files (env.value? "HOME" = some ·) dir ∧ above = some path := by
  cases hfile : fileIn? files dir with
  | some taken =>
    have htaken : Taken files dir taken := fileIn?_eq_some_iff.mp hfile
    refine ⟨some taken, by simp [searchIn, hfile], fun path => ⟨?_, ?_⟩⟩
    · rintro ⟨⟩
      exact .inl htaken
    · rintro (hother | ⟨hpassed, -⟩)
      · exact congrArg some (htaken.unique hother)
      · exact absurd htaken (hpassed.bare taken)
  | none =>
    have hbare : ∀ path, ¬ Taken files dir path := fun path htaken => by
      simp [fileIn?_eq_some_iff.mpr htaken] at hfile
    by_cases hboundary : isBoundary files ((env.value? "HOME").getD []) dir = true
    · refine ⟨none, by simp [searchIn, hfile, hboundary], fun path => ⟨nofun, ?_⟩⟩
      rintro (htaken | ⟨hpassed, -⟩)
      · exact absurd htaken (hbare path)
      · rcases (isBoundary_iff env).mp hboundary with hmarked | hhome
        · exact absurd hmarked hpassed.not_repository
        · exact absurd hhome hpassed.not_home
    · obtain ⟨hmarked, hhome⟩ := not_or.mp (mt (isBoundary_iff env).mpr hboundary)
      have hpassed : Passed files (env.value? "HOME" = some ·) dir := ⟨hbare, hmarked, hhome⟩
      exact ⟨above, by simpa [searchIn, hfile, hboundary] using habove, fun path => by simp [hbare, hpassed]⟩

/-- The search from a directory up ends, and finds what is nearest. -/
lemma searchIn_ancestors (files : FileSystem) (env : Environment) (h : l.Named) :
    ∃ found, (searchIn files ((env.value? "HOME").getD []) (ancestors l.text) .never).1 = .ok found ∧
      ∀ path, found = some path ↔ Nearest files (env.value? "HOME" = some ·) l.text path := by
  -- From the root down: of the directory above it is known what is found from there.
  induction l using List.reverseRecOn with
  | nil =>
    obtain ⟨found, hfound, hiff⟩ := searchIn_cons env (Location.text [])
      (show (searchIn files ((env.value? "HOME").getD []) [] .never).1 = .ok none from rfl)
    rw [ancestors_text_nil]
    exact ⟨found, hfound, fun path => by simp [hiff, nearest_root_iff]⟩
  | append_singleton l name ih =>
    obtain ⟨above, habove, hnearest⟩ := ih (List.forall_mem_append.mp h).1
    obtain ⟨found, hfound, hiff⟩ := searchIn_cons env (Location.text (l ++ [name])) habove
    rw [ancestors_text_concat h]
    refine ⟨found, hfound, fun path => ?_⟩
    rw [hiff, hnearest, nearest_iff (Location.text (l ++ [name])), Location.dir_text_concat h]

/-- The climb from a location meets the root. -/
lemma exists_iterate_dir_eq_root (h : l.Named) : ∃ n, Path.dir^[n] l.text = [Path.separator] := by
  induction l using List.reverseRecOn with
  | nil => exact ⟨0, rfl⟩
  | append_singleton l name ih =>
    obtain ⟨n, hn⟩ := ih (List.forall_mem_append.mp h).1
    exact ⟨n + 1, by rw [Function.iterate_succ_apply, Location.dir_text_concat h, hn]⟩

/-- The directory named as the home directory is the home directory, if it is named in its shortest form. -/
lemma isHome_iff (h : ∀ home, env.value? "HOME" = some home → Path.clean home = home) :
    IsHome env dir ↔ env.value? "HOME" = some dir := by
  constructor
  · rintro ⟨home, hhome, rfl⟩
    rw [h home hhome, hhome]
  · exact fun hhome => ⟨dir, hhome, h dir hhome⟩

/-- From an absolute directory the search always ends. It finds the preferred file of the nearest directory that
has one, unless it comes to a repository or to the directory named as the home directory before; the root is the
last it comes to. Of a home directory named in its shortest form nothing above is ever taken. -/
theorem findProject_nearest (files : FileSystem) (env : Environment) {start : Bytes}
    (habs : Path.isAbsolute start = true) :
    (∃ n, Path.dir^[n] (Path.clean start) = [Path.separator]) ∧
    ∃ found, (findProject files env start .never).1 = .ok found ∧
      (∀ path, found = some path ↔ Nearest files (env.value? "HOME" = some ·) (Path.clean start) path) ∧
      ((∀ home, env.value? "HOME" = some home → Path.clean home = home) →
        ∀ path, found = some path ↔ Nearest files (IsHome env) (Path.clean start) path) := by
  obtain ⟨l, hl, hclean⟩ := Location.exists_clean_eq habs
  obtain ⟨found, hfound, hiff⟩ := searchIn_ancestors files env hl
  have hstart : start.isEmpty = false := by
    cases start with
    | nil => cases habs
    | cons x rest => rfl
  have hsearch : (findProject files env start .never).1 = .ok found := by
    rw [← hfound, ← hclean]
    simp [findProject, hstart, FileSystem.absolute, habs, Except.mapError]
  rw [hclean]
  refine ⟨exists_iterate_dir_eq_root hl, found, hsearch, hiff, fun hhome path => ?_⟩
  have hsame : IsHome env = (env.value? "HOME" = some ·) := funext fun dir => propext (isHome_iff hhome)
  rw [hiff, hsame]

section Home

/-- A directory that has a configuration, above one that has none. -/
def homes : FileSystem where
  entries :=
    [(["R"], .directory), (["R", "home"], .directory), (["R", "home", "p"], .directory),
      (["R", ".syntree.yml"], .file { content := [], mode := 0o644 })]

def homeNamed (home : Bytes) : Environment := [("HOME", home)]

lemma fileIn?_below : fileIn? homes "/R/home/p" = none := by decide

lemma fileIn?_home : fileIn? homes "/R/home" = none := by decide

lemma fileIn?_above : fileIn? homes "/R" = some ("/R/.syntree.yml" : Bytes) := by decide

lemma marks_below : repositoryMarks.any (fun mark => homes.hasDirectory (Path.join ["/R/home/p", mark])) = false := by
  decide

lemma marks_home : repositoryMarks.any (fun mark => homes.hasDirectory (Path.join ["/R/home", mark])) = false := by
  decide

lemma isBoundary_eq_false {home : Bytes}
    (hmarks : repositoryMarks.any (fun mark => files.hasDirectory (Path.join [dir, mark])) = false)
    (hhome : dir ≠ home) : isBoundary files home dir = false := by
  rw [isBoundary, hmarks, Bool.false_or, beq_false_of_ne hhome, Bool.and_false]

/-- Unless the home directory is so named, the search climbs on from it. -/
lemma findProject_homeNamed {home : Bytes} (hbelow : Bytes.ofString "/R/home/p" ≠ home)
    (hhome : Bytes.ofString "/R/home" ≠ home) :
    (findProject homes (homeNamed home) "/R/home/p" .never).1 = .ok (some ("/R/.syntree.yml" : Bytes)) := by
  have hvalue : ((homeNamed home).value? "HOME").getD [] = home := by
    cases home <;> simp [homeNamed, Environment.value?, Option.filter]
  have hstart : List.isEmpty (Bytes.ofString "/R/home/p") = false := by decide
  have hdir : homes.absolute "/R/home/p" = .ok "/R/home/p" := by decide
  have habove : ancestors "/R/home/p" = (["/R/home/p", "/R/home", "/R", "/"] : List Bytes) := by decide
  simp only [findProject, hstart, hdir, habove, hvalue, Except.mapError, searchIn, fileIn?_below, fileIn?_home,
    fileIn?_above, isBoundary_eq_false marks_below hbelow, isBoundary_eq_false marks_home hhome,
    Cancellation.isDue_never, Cancellation.next_never, Bool.false_eq_true, if_false]

/-- The home directory's own configuration is found from below. -/
theorem findProject_nearest_homes :
    (findProject homes (homeNamed "/R") "/R/home/p" .never).1 = .ok (some ("/R/.syntree.yml" : Bytes)) ∧
      Nearest homes (IsHome (homeNamed "/R")) "/R/home/p" "/R/.syntree.yml" := by
  have hsearch : (findProject homes (homeNamed "/R") "/R/home/p" .never).1 =
      .ok (some ("/R/.syntree.yml" : Bytes)) := findProject_homeNamed (by decide) (by decide)
  have habs : Path.isAbsolute (Bytes.ofString "/R/home/p") = true := by decide
  have hclean : Path.clean (Bytes.ofString "/R/home/p") = Bytes.ofString "/R/home/p" := by decide
  have hhome : ∀ home, (homeNamed "/R").value? "HOME" = some home → Path.clean home = home := by
    intro home hvalue
    obtain rfl : Bytes.ofString "/R" = home := Option.some.inj (Eq.trans (by decide) hvalue)
    decide
  obtain ⟨-, found, hfound, -, hnearest⟩ := findProject_nearest homes (homeNamed "/R") habs
  obtain rfl := Except.ok.inj (hfound.symm.trans hsearch)
  rw [hclean] at hnearest
  exact ⟨hsearch, (hnearest hhome _).mp rfl⟩

/-- If the home directory is named with a slash at the end, the search climbs on from it, and takes a
configuration above. -/
theorem findProject_above_home :
    IsHome (homeNamed "/R/home/") (Path.dir "/R/home/p") ∧
      (findProject homes (homeNamed "/R/home/") "/R/home/p" .never).1 = .ok (some ("/R/.syntree.yml" : Bytes)) ∧
      ∀ path, ¬ Nearest homes (IsHome (homeNamed "/R/home/")) "/R/home/p" path := by
  have hdir : Path.dir (Bytes.ofString "/R/home/p") = Bytes.ofString "/R/home" := by decide
  have hhome : IsHome (homeNamed "/R/home/") (Path.dir "/R/home/p") :=
    ⟨"/R/home/", by decide, by decide⟩
  refine ⟨hhome, findProject_homeNamed (by decide) (by decide), fun path hnearest => ?_⟩
  rcases (nearest_iff _).mp hnearest with htaken | ⟨-, hnearest⟩
  · cases fileIn?_below.symm.trans (fileIn?_eq_some_iff.mpr htaken)
  · rcases (nearest_iff _).mp hnearest with htaken | ⟨hpassed, -⟩
    · rw [hdir] at htaken
      cases fileIn?_home.symm.trans (fileIn?_eq_some_iff.mpr htaken)
    · exact hpassed.not_home hhome

end Home

end Config
end LosslessTree
