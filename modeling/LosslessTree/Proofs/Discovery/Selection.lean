import LosslessTree.Proofs.Discovery.Run
import LosslessTree.Proofs.Discovery.Walk
import Mathlib.Data.List.Induction
import Mathlib.Data.List.Sort

/-! Which files a run is about, where there are no links: those that are named, and those below the directories
that are named, but for what is hidden or excluded on the way. Nothing is lost because a directory was walked
before, so inputs may overlap and come in any order. -/
namespace LosslessTree.Discovery

open FileSystem

/-- A file, by the names that lead to it from a directory that is walked. -/
structure FoundBelow (scope : Scope) (dir : Location) (names : List Bytes) : Prop where
  file : ∃ data, scope.files.entry? (dir ++ names) = some (.file data)
  visible : ∀ name ∈ names, ¬ IsDotted name
  /-- No directory strictly between is excluded. -/
  entered : ∀ above, above <+: names → above ≠ [] → above ≠ names →
    scope.isExcluded (Location.text (dir ++ above)) = false
  eligible : Path.lower (Path.extension (Location.text (dir ++ names))) ∈ scope.extensions
  kept : scope.isExcluded (Location.text (dir ++ names)) = false
  included : scope.options.includes = [] ∨ Glob.anySelects scope.options.includes
    (Path.relativeTo scope.workDir (Location.text (dir ++ names))) = true

/-- A path that is in the run because of an input. -/
inductive Selected (scope : Scope) (text : Bytes) : Bytes → Prop
  | named {data : FileData} (file : scope.files.stat (inputPath scope.workDir text) = .ok (.file data))
      (kept : scope.isExcluded (inputPath scope.workDir text) = false) :
      Selected scope text (inputPath scope.workDir text)
  | below {dir : Location} {names : List Bytes} (directory : scope.files.entry? dir = some .directory)
      (root : inputPath scope.workDir text = dir.text) (found : FoundBelow scope dir names) :
      Selected scope text (Location.text (dir ++ names))

/-- All that is selected by inputs, in strict order, as absolute paths. -/
structure Lists (scope : Scope) (inputs paths : List Bytes) : Prop where
  increasing : paths.Pairwise (· < ·)
  absolute : ∀ path ∈ paths, Path.isAbsolute path = true
  exact : ∀ path, path ∈ paths ↔ ∃ text ∈ inputs, Selected scope text path

/-- What an input has led to: its file was found, or its directory marked. -/
structure Served (scope : Scope) (text : Bytes) (s : Search) : Prop where
  file : ∀ data, scope.files.stat (inputPath scope.workDir text) = .ok (.file data) →
    scope.isExcluded (inputPath scope.workDir text) = false → inputPath scope.workDir text ∈ s.found
  directory : ∀ dir : Location, scope.files.entry? dir = some .directory →
    inputPath scope.workDir text = dir.text → dir.text ∈ s.visited

section
variable {scope : Scope} {s : Search} {root dir : Location} {path text workDir : Bytes} {name : Bytes}
  {names : List Bytes} {e : Entry} {files : FileSystem}

lemma isWanted_iff : scope.isWanted path = true ↔
    Path.lower (Path.extension path) ∈ scope.extensions ∧ scope.isExcluded path = false ∧
      (scope.options.includes = [] ∨
        Glob.anySelects scope.options.includes (Path.relativeTo scope.workDir path) = true) := by
  simp [Scope.isWanted, and_assoc]

lemma isHidden_entry (h : scope.files.Plain) (he : scope.files.entry? (dir ++ [name]) = some e) :
    isHidden (Location.text (dir ++ [name])) = false ↔ ¬ IsDotted name :=
  isHidden_text (isName_last h he) dir

/-- Directories on the way from a root that a walk does not pass over. -/
structure Open (scope : Scope) (root : Location) (names : List Bytes) : Prop where
  visible : ∀ name ∈ names, ¬ IsDotted name
  kept : ∀ above, above <+: names → above ≠ [] → scope.isExcluded (Location.text (root ++ above)) = false

lemma open_nil (scope : Scope) (root : Location) : Open scope root [] :=
  ⟨List.forall_mem_nil _, fun _ habove hne => absurd (List.prefix_nil.mp habove) hne⟩

lemma open_concat : Open scope root (names ++ [name]) ↔ Open scope root names ∧ ¬ IsDotted name ∧
    scope.isExcluded (Location.text (root ++ (names ++ [name]))) = false := by
  constructor
  · rintro ⟨visible, kept⟩
    obtain ⟨hnames, hname⟩ := List.forall_mem_append.mp visible
    exact ⟨⟨hnames, fun above habove => kept above (habove.trans (List.prefix_append _ _))⟩,
      hname name List.mem_cons_self, kept _ (List.prefix_refl _) (List.concat_ne_nil _ _)⟩
  · rintro ⟨⟨visible, kept⟩, hname, hkept⟩
    refine ⟨List.forall_mem_append.mpr ⟨visible, List.forall_mem_singleton.mpr hname⟩, fun above habove hne => ?_⟩
    rcases List.prefix_concat_iff.mp habove with rfl | habove
    · exact hkept
    · exact kept above habove hne

/-- The names by which a walk has come to a directory. -/
lemma Entered.exists_names (hplain : scope.files.Plain) (h : Entered scope root dir) :
    ∃ names, dir = root ++ names ∧ Open scope root names := by
  induction h with
  | root => exact ⟨[], (List.append_nil root).symm, open_nil scope root⟩
  | @child dir name above directory visible kept ih =>
    obtain ⟨names, rfl, hopen⟩ := ih
    rw [List.append_assoc] at kept ⊢
    exact ⟨names ++ [name], rfl, open_concat.mpr ⟨hopen, (isHidden_entry hplain directory).mp visible, kept⟩⟩

/-- A walk comes to every directory by open names. -/
lemma Open.entered (hplain : scope.files.Plain) (he : scope.files.entry? (root ++ names) = some .directory)
    (h : Open scope root names) : Entered scope root (root ++ names) := by
  induction names using List.reverseRecOn with
  | nil =>
    rw [List.append_nil]
    exact .root
  | append_singleton names name ih =>
    obtain ⟨hopen, hname, hkept⟩ := open_concat.mp h
    rw [← List.append_assoc] at he hkept ⊢
    have hparent : scope.files.entry? (root ++ names) = some .directory := by
      simpa using hplain.parent _ _ he
    exact .child (ih hparent hopen) he ((isHidden_entry hplain he).mpr hname) hkept

/-- What a walk takes are the files below its root, but for what is passed over. -/
lemma taken_iff (hplain : scope.files.Plain) (hroot : scope.files.entry? root = some .directory) :
    Taken scope root path ↔ ∃ names, FoundBelow scope root names ∧ Location.text (root ++ names) = path := by
  constructor
  · intro h
    obtain @⟨dir, name, data, above, file, visible, wanted⟩ := h
    obtain ⟨names, rfl, hopen⟩ := above.exists_names hplain
    have hname := (isHidden_entry hplain file).mp visible
    rw [List.append_assoc] at file wanted ⊢
    obtain ⟨eligible, kept, included⟩ := isWanted_iff.mp wanted
    refine ⟨names ++ [name], ⟨⟨data, file⟩, ?_, fun above habove hne hproper => ?_, eligible, kept, included⟩, rfl⟩
    · exact List.forall_mem_append.mpr ⟨hopen.visible, List.forall_mem_singleton.mpr hname⟩
    · exact hopen.kept above ((List.prefix_concat_iff.mp habove).resolve_left hproper) hne
  · rintro ⟨names, hfound, rfl⟩
    -- the last name is the file's own, so the directories to enter are those of the names before it
    obtain ⟨data, file⟩ := hfound.file
    obtain rfl | ⟨above, name, rfl⟩ := List.eq_nil_or_concat' names
    · rw [List.append_nil, hroot] at file
      cases file
    · have hopen : Open scope root above := by
        refine ⟨(List.forall_mem_append.mp hfound.visible).1, fun p hp hne => ?_⟩
        refine hfound.entered p (hp.trans (List.prefix_append _ _)) hne fun heq => ?_
        have hlength := hp.length_le
        rw [heq, List.length_append, List.length_singleton] at hlength
        omega
      have hname : ¬ IsDotted name := hfound.visible name (List.mem_append_right _ List.mem_cons_self)
      have hwanted := isWanted_iff.mpr ⟨hfound.eligible, hfound.kept, hfound.included⟩
      rw [← List.append_assoc] at file hwanted ⊢
      have hdir : scope.files.entry? (root ++ above) = some .directory := by simpa using hplain.parent _ _ file
      exact .mk (hopen.entered hplain hdir) file ((isHidden_entry hplain file).mpr hname) hwanted

lemma Taken.selected (hplain : scope.files.Plain) (hroot : scope.files.entry? root = some .directory)
    (hinput : inputPath scope.workDir text = root.text) (h : Taken scope root path) : Selected scope text path := by
  obtain ⟨names, hfound, rfl⟩ := (taken_iff hplain hroot).mp h
  exact .below hroot hinput hfound

lemma served_of_file {data : FileData} (hplain : scope.files.Plain)
    (hstat : scope.files.stat (inputPath scope.workDir text) = .ok (.file data))
    (h : scope.isExcluded (inputPath scope.workDir text) = false → inputPath scope.workDir text ∈ s.found) :
    Served scope text s where
  file := fun _ _ => h
  directory := fun dir hdir heq => by
    rw [heq, (hplain.stat_text_iff (hplain.named hdir)).mpr hdir] at hstat
    cases hstat

lemma served_of_directory (hstat : scope.files.stat (inputPath scope.workDir text) = .ok .directory)
    (h : inputPath scope.workDir text ∈ s.visited) : Served scope text s where
  file := fun _ hfile => nomatch hstat.symm.trans hfile
  directory := fun _ _ heq => heq ▸ h

lemma Served.progress {offered : Bytes → Prop} {s' : Search} (h : Served scope text s)
    (hp : Progress scope offered s s') : Served scope text s' where
  file := fun data hstat hkept => hp.found _ (h.file data hstat hkept)
  directory := fun dir hdir hinput => hp.visited _ (h.directory dir hdir hinput)

/-- What an input selects is found by a search that has served it and has closed all that it marked. -/
lemma Selected.found (hplain : scope.files.Plain)
    (hclosed : AllClosed scope s) (hserved : Served scope text s) (h : Selected scope text path) : path ∈ s.found := by
  cases h with
  | named file kept => exact hserved.file _ file kept
  | below directory root found =>
    have htaken := (taken_iff hplain directory).mpr ⟨_, found, rfl⟩
    exact htaken.found hplain directory hclosed (hserved.directory _ directory root)

/-- An input that is there is worked off: it makes progress by what it selects, and is served. -/
lemma ends_input (hplain : scope.files.Plain) (hwork : Path.isAbsolute scope.workDir = true)
    (hexists : ∃ e, scope.files.stat (inputPath scope.workDir text) = .ok e) (hs : s.cancellation = .never) :
    Ends (input scope text) s fun _ s' => Progress scope (Selected scope text) s s' ∧ Served scope text s' := by
  obtain ⟨l, hl, hinput⟩ := exists_inputPath_eq hwork text
  obtain ⟨e, hstat⟩ := hexists
  have he : scope.files.entry? l = some e := (hplain.stat_text_iff hl).mp (hinput ▸ hstat)
  refine ((ends_check hs).adapt _).bind fun _ s' hs' => ?_
  subst hs'
  extract_lets path
  have hpath : path = inputPath scope.workDir text := rfl
  clear_value path
  subst hpath
  rw [hstat]
  cases e with
  | link target => exact absurd he (hplain.unlinked _ target)
  | directory =>
    dsimp only
    rw [hinput]
    refine (ends_walk hplain he hs).mono fun _ s'' hwalked => ?_
    exact ⟨hwalked.1.mono fun path htaken => htaken.selected hplain he hinput,
      served_of_directory hstat (hinput.symm ▸ hwalked.2)⟩
  | file data =>
    by_cases hexcluded : scope.isExcluded (inputPath scope.workDir text) = true
    · simp only [hexcluded, Entry.isDirectory]
      refine .pure ⟨.refl scope _ s', served_of_file hplain hstat fun hkept => ?_⟩
      rw [hexcluded] at hkept
      cases hkept
    · rw [Bool.not_eq_true] at hexcluded
      simp only [hexcluded, Entry.isDirectory]
      have hselected : Selected scope text (inputPath scope.workDir text) := .named hstat hexcluded
      refine (ends_add scope hselected s').mono fun _ s'' hadded => ?_
      exact ⟨hadded.1, served_of_file hplain hstat fun _ => hadded.2⟩

lemma Selected.isAbsolute (hwork : Path.isAbsolute scope.workDir = true) (h : Selected scope text path) :
    Path.isAbsolute path = true := by
  cases h with
  | named file kept =>
    obtain ⟨l, -, hl⟩ := exists_inputPath_eq hwork text
    rw [hl, Location.isAbsolute_text]
  | below directory root found => exact Location.isAbsolute_text _

/-- Inputs that are there are all worked off, and what they select is found. -/
lemma ends_inputs (scope : Scope) {inputs : List Bytes} (hplain : scope.files.Plain)
    (hwork : Path.isAbsolute scope.workDir = true)
    (hexist : ∀ text ∈ inputs, ∃ e, scope.files.stat (inputPath scope.workDir text) = .ok e) :
    Ends (inputs.forM (input scope)) {} fun _ s =>
      ∀ path, path ∈ s.found ↔ ∃ text ∈ inputs, Selected scope text path := by
  have hinputs : Ends (inputs.forM (input scope)) {} fun _ s =>
      Progress scope (fun path => ∃ text ∈ inputs, Selected scope text path) {} s ∧
        ∀ text ∈ inputs, Served scope text s := by
    refine ends_forM (Served scope) (fun _ _ _ hserved hp => hserved.progress hp)
      (fun text htext s hs => ?_) rfl
    refine (ends_input hplain hwork (hexist text htext) hs).mono fun _ s' ⟨hp, hserved⟩ => ⟨hp.mono ?_, hserved⟩
    exact fun path hpath => ⟨text, htext, hpath⟩
  refine hinputs.mono fun _ s ⟨hp, hserved⟩ path => ⟨fun hpath => ?_, fun ⟨text, htext, hpath⟩ => ?_⟩
  · exact (hp.sound path hpath).resolve_left List.not_mem_nil
  · have hclosed : AllClosed scope s := fun dir hnamed hdir =>
      (hp.closed dir hnamed hdir).resolve_left List.not_mem_nil
    exact hpath.found hplain hclosed (hserved text htext)

/-- A directory for relative paths is found unless the working directory is asked for and gone. -/
lemma exists_resolveWorkDir (dir : Bytes)
    (hstart : Path.isAbsolute dir = true ∨ (files.entry? files.workDir).isSome = true) :
    ∃ workDir, resolveWorkDir files dir = .ok workDir ∧ Path.isAbsolute workDir = true := by
  unfold resolveWorkDir
  by_cases hempty : dir = []
  · subst hempty
    have hthere := hstart.resolve_left (by decide)
    refine ⟨files.workDir.text, ?_, Location.isAbsolute_text _⟩
    simp [workingDirectory, hthere, Except.mapError]
  · rw [if_neg (by simpa using hempty), absolute]
    by_cases habsolute : Path.isAbsolute dir = true
    · rw [if_pos habsolute]
      exact ⟨_, rfl, isAbsolute_clean habsolute⟩
    · have hthere := hstart.resolve_left habsolute
      refine ⟨Path.join [files.workDir.text, dir], ?_, isAbsolute_join (Location.isAbsolute_text _) dir⟩
      simp [habsolute, workingDirectory, hthere, Except.mapError, Except.map]

lemma discover_lists (r : Registry) {o : RunOptions} (hplain : files.Plain)
    (hwork : resolveWorkDir files o.workingDir = .ok workDir) (habsolute : Path.isAbsolute workDir = true)
    (hexist : ∀ text ∈ o.inputs, ∃ e, files.stat (inputPath workDir text) = .ok e) :
    ∃ paths, (discover r files o .never).1 = .ok paths ∧
      Lists ⟨files, workDir, o.extensions r, o⟩ o.inputs paths := by
  obtain ⟨⟨⟩, s, hrun, hfound⟩ := ends_inputs ⟨files, workDir, o.extensions r, o⟩ hplain habsolute hexist
  have hpaths : (discover r files o .never).1 = .ok (Bytes.sort s.found) := by
    simp only [discover, hwork]
    rw [hrun]
  refine ⟨_, hpaths, (discover_never r files o).2 _ hpaths, fun path hpath => ?_, fun path => ?_⟩
  · obtain ⟨text, -, hselected⟩ := (hfound path).mp (Bytes.mem_sort.mp hpath)
    exact hselected.isAbsolute habsolute
  · exact Bytes.mem_sort.trans (hfound path)

/-- The inputs of the options do not matter to what one of them selects. -/
lemma Selected.of_paths {o : RunOptions} {extensions paths inputs : List Bytes}
    (h : Selected ⟨files, workDir, extensions, { o with paths := paths }⟩ text path) :
    Selected ⟨files, workDir, extensions, { o with paths := inputs }⟩ text path := by
  cases h with
  | named file kept => exact .named file kept
  | below directory root found =>
    exact .below directory root
      ⟨found.file, found.visible, found.entered, found.eligible, found.kept, found.included⟩

/-- Without links, and with inputs that are there, the files of a run are exactly those that are named and not
excluded, and those below a directory that is named: no name below it starts with a dot, no directory in between
is excluded, and the file itself is wanted. They are absolute paths in strict order, and the order and repetition
of the inputs do not matter. All that is asked of the working directory is that it has not been removed, if the
options do not replace it. -/
theorem discover_exact (r : Registry) {files : FileSystem} {o : RunOptions} (hplain : files.Plain)
    (hstart : Path.isAbsolute o.workingDir = true ∨ (files.entry? files.workDir).isSome = true) :
    ∃ workDir, resolveWorkDir files o.workingDir = .ok workDir ∧
      ((∀ text ∈ o.inputs, ∃ e, files.stat (inputPath workDir text) = .ok e) →
        ∃ paths, (discover r files o .never).1 = .ok paths ∧
          Lists ⟨files, workDir, o.extensions r, o⟩ o.inputs paths ∧
          ∀ inputs, (∀ text, text ∈ RunOptions.inputs { o with paths := inputs } ↔ text ∈ o.inputs) →
            (discover r files { o with paths := inputs } .never).1 = .ok paths) := by
  obtain ⟨workDir, hwork, habsolute⟩ := exists_resolveWorkDir o.workingDir hstart
  refine ⟨workDir, hwork, fun hexist => ?_⟩
  obtain ⟨paths, hpaths, hlists⟩ := discover_lists r hplain hwork habsolute hexist
  refine ⟨paths, hpaths, hlists, fun inputs hsame => ?_⟩
  have hexist' : ∀ text ∈ RunOptions.inputs { o with paths := inputs }, ∃ e,
      files.stat (inputPath workDir text) = .ok e := fun text htext => hexist text ((hsame text).mp htext)
  obtain ⟨paths', hpaths', hlists'⟩ :=
    discover_lists r (o := { o with paths := inputs }) hplain hwork habsolute hexist'
  have hmem (path : Bytes) : path ∈ paths' ↔ path ∈ paths := by
    rw [hlists.exact, hlists'.exact]
    exact exists_congr fun text => and_congr (hsame text) ⟨Selected.of_paths, Selected.of_paths⟩
  rw [hpaths', hlists'.increasing.eq_of_mem_iff hlists.increasing hmem]

end

section Nested

/-- A directory with a hidden one in it and one to be excluded. -/
def nested : FileSystem where
  entries := [(["w"], .directory),
    (["w", ".h"], .directory), (["w", ".h", "a.calc"], .file ⟨[], 0o644, .outside 0⟩),
    (["w", "v"], .directory), (["w", "v", "b.calc"], .file ⟨[], 0o644, .outside 0⟩)]
  workDir := ["w"]

/-- Roots within each other: one is hidden, and one would be excluded. -/
def overlapping : RunOptions where
  paths := ["v", ".", ".h"]
  excludes := ["v"]

lemma plain_nested : nested.Plain := plain_of_entries (by decide) (by decide)

lemma discover_nested : (discover ⟨[Language.ofCalc]⟩ nested overlapping .never).1 =
    .ok ["/w/.h/a.calc", "/w/v/b.calc"] := by decide +kernel

lemma overlapping_exist : ∀ text ∈ overlapping.inputs, ∃ e, nested.stat (inputPath "/w" text) = .ok e :=
  List.forall_mem_cons.mpr ⟨⟨.directory, by decide⟩, List.forall_mem_cons.mpr ⟨⟨.directory, by decide⟩,
    List.forall_mem_singleton.mpr ⟨.directory, by decide⟩⟩⟩

/-- What is hidden or excluded is walked once it is named, before or after the directory around it. -/
theorem discover_exact_nested : nested.Plain ∧ (nested.entry? nested.workDir).isSome = true ∧
    (∀ text ∈ overlapping.inputs, ∃ e, nested.stat (inputPath "/w" text) = .ok e) ∧
    Lists ⟨nested, "/w", overlapping.extensions ⟨[Language.ofCalc]⟩, overlapping⟩ overlapping.inputs
      [Bytes.ofString "/w/.h/a.calc", Bytes.ofString "/w/v/b.calc"] ∧
    (discover ⟨[Language.ofCalc]⟩ nested { overlapping with paths := overlapping.paths.reverse }
      .never).1 = .ok ["/w/.h/a.calc", "/w/v/b.calc"] := by
  have hthere : (nested.entry? nested.workDir).isSome = true := by decide
  obtain ⟨workDir, hwork, hlists⟩ :=
    discover_exact ⟨[Language.ofCalc]⟩ plain_nested (o := overlapping) (.inr hthere)
  obtain rfl : Bytes.ofString "/w" = workDir := Except.ok.inj hwork
  obtain ⟨paths, hpaths, hlists, hsame⟩ := hlists overlapping_exist
  obtain rfl : [Bytes.ofString "/w/.h/a.calc", Bytes.ofString "/w/v/b.calc"] = paths :=
    Except.ok.inj (discover_nested.symm.trans hpaths)
  exact ⟨plain_nested, hthere, overlapping_exist, hlists, hsame _ fun text => List.mem_reverse⟩

end Nested
end LosslessTree.Discovery
