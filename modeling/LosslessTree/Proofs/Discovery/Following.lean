import LosslessTree.Proofs.Discovery.Termination

/-! Searches that follow links. What a directory holds has been dealt with when the walk that has marked it ends, so
whoever comes to it again, by whatever link, can pass it over. In the end all that can be reached from the inputs has
been dealt with. The one thing that marks a directory and does not list it is an input that is a link itself. -/
namespace LosslessTree.Discovery

open FileSystem

/-- The directories that the inputs lead to, with those in them and those that links in them lead to. What is dotted
is passed over. -/
inductive Reached (files : FileSystem) (workDir : Bytes) (inputs : List Bytes) : Location → Prop
  | input {text : Bytes} {dir : Location} (mem : text ∈ inputs)
      (leads : files.locate true (inputPath workDir text) = .ok (.found dir)) : Reached files workDir inputs dir
  | child {dir : Location} {name : Bytes} (above : Reached files workDir inputs dir) (visible : ¬ IsDotted name)
      (directory : files.entry? (dir ++ [name]) = some .directory) : Reached files workDir inputs (dir ++ [name])
  | link {dir next : Location} {name target : Bytes} (above : Reached files workDir inputs dir)
      (visible : ¬ IsDotted name) (link : files.entry? (dir ++ [name]) = some (.link target))
      (leads : files.locate true (Location.text (dir ++ [name])) = .ok (.found next))
      (directory : files.entry? next = some .directory) : Reached files workDir inputs next

/-- Links are followed, and every file of a known kind is taken. -/
structure Scope.Follows (scope : Scope) : Prop where
  follow : scope.options.followSymlinks = true
  includes : scope.options.includes = []
  excludes : scope.options.excludes = []

/-- What stands somewhere has been dealt with: a directory is marked, be it here or where a link leads, and a file was
taken by some path. -/
structure Handled (scope : Scope) (s : Search) (l : Location) : Prop where
  directory : scope.files.entry? l = some .directory → l.text ∈ s.visited
  link : ∀ target next, scope.files.entry? l = some (.link target) →
    scope.files.locate true l.text = .ok (.found next) → scope.files.entry? next = some .directory →
    next.text ∈ s.visited
  file : ∀ data, scope.files.entry? l = some (.file data) →
    Path.lower (Path.extension l.text) ∈ scope.extensions →
    ∃ path ∈ s.found, scope.files.locate true path = .ok (.found l)

/-- All that is in a directory and not dotted has been dealt with. -/
def Explored (scope : Scope) (s : Search) (dir : Location) : Prop :=
  ∀ name e, scope.files.entry? (dir ++ [name]) = some e → ¬ IsDotted name → Handled scope s (dir ++ [name])

/-- Every directory that is marked is explored. -/
def AllExplored (scope : Scope) (s : Search) : Prop :=
  ∀ dir, scope.files.entry? dir = some .directory → dir.text ∈ s.visited → Explored scope s dir

/-- From one state of a search to another nothing was lost, and all directories were explored that were marked. -/
structure Advance (scope : Scope) (s s' : Search) : Prop where
  found : s.found ⊆ s'.found
  visited : s.visited ⊆ s'.visited
  explored : ∀ dir, scope.files.entry? dir = some .directory → dir.text ∈ s'.visited →
    dir.text ∈ s.visited ∨ Explored scope s' dir

/-- The paths below a directory that is reached by some path are short enough to be asked for. -/
def Roomy (files : FileSystem) (root dir : Location) : Prop :=
  ∀ names e, files.entry? (dir ++ names) = some e → (Location.text (root ++ names)).length ≤ maxPathLength

/-- An entry, with the path by which a walk comes to it from its root. -/
structure Below (files : FileSystem) (root dir : Location) (names : List Bytes) (name : Bytes) (e : Entry) : Prop where
  named : Location.Named (root ++ names)
  roomy : Roomy files root dir
  leads : files.locate true (Location.text (root ++ names)) = .ok (.found (dir ++ names))
  entry : files.entry? (dir ++ names ++ [name]) = some e

/-- The parts of a search that go well: it is known where their paths lead. -/
inductive Task.Sure (files : FileSystem) : Task → Prop
  | walk {root dir : Location} (named : root.Named) (roomy : Roomy files root dir)
      (leads : files.locate true root.text = .ok (.found dir)) (unlinked : files.lstat root.text = .ok .directory) :
      Sure files (.walk root.text)
  | path {root dir : Location} {names : List Bytes} {name : Bytes} {e : Entry} (below : Below files root dir names name e) :
      Sure files (.path root.text (Location.text (root ++ names ++ [name])))

/-- What is to be reached by a part of a search. -/
def Task.Done (scope : Scope) (s : Search) : Task → Prop
  | .input text => ∀ dir, scope.files.locate true (inputPath scope.workDir text) = .ok (.found dir) → dir.text ∈ s.visited
  | .walk root => ∀ dir, scope.files.locate true root = .ok (.found dir) → dir.text ∈ s.visited
  | .path _ place => isHidden place = false → ∀ l, scope.files.locate false place = .ok (.found l) → Handled scope s l

section
variable {scope : Scope} {t : Task} {ts : List Task} {s s' s'' : Search} {log : List Bytes}
  {result : Except Failure Unit} {l root dir : Location} {names : List Bytes} {name path : Bytes} {e : Entry}

lemma Handled.mono (h : Handled scope s l) (hs : Advance scope s s') : Handled scope s' l where
  directory := fun hl => hs.visited (h.directory hl)
  link := fun target next hl hnext hdir => hs.visited (h.link target next hl hnext hdir)
  file := fun data hl heligible => (h.file data hl heligible).imp fun _ hpath => ⟨hs.found hpath.1, hpath.2⟩

lemma handled_directory (hl : scope.files.entry? l = some .directory) (hmarked : l.text ∈ s.visited) :
    Handled scope s l where
  directory := fun _ => hmarked
  link := fun _ _ hlink => nomatch hl.symm.trans hlink
  file := fun _ hfile => nomatch hl.symm.trans hfile

lemma handled_link {target : Bytes} (hl : scope.files.entry? l = some (.link target))
    (hmarked : ∀ next, scope.files.locate true l.text = .ok (.found next) → scope.files.entry? next = some .directory →
      next.text ∈ s.visited) : Handled scope s l where
  directory := fun hdir => nomatch hl.symm.trans hdir
  link := fun _ next _ => hmarked next
  file := fun _ hfile => nomatch hl.symm.trans hfile

lemma handled_file {data : FileData} (hl : scope.files.entry? l = some (.file data))
    (hfound : Path.lower (Path.extension l.text) ∈ scope.extensions →
      ∃ path ∈ s.found, scope.files.locate true path = .ok (.found l)) : Handled scope s l where
  directory := fun hdir => nomatch hl.symm.trans hdir
  link := fun _ _ hlink => nomatch hl.symm.trans hlink
  file := fun _ _ => hfound

lemma Explored.mono (h : Explored scope s dir) (hs : Advance scope s s') : Explored scope s' dir :=
  fun name e he hvisible => (h name e he hvisible).mono hs

lemma Task.Done.mono (h : t.Done scope s) (hs : Advance scope s s') : t.Done scope s' := by
  cases t with
  | input text => exact fun dir hdir => hs.visited (h dir hdir)
  | walk root => exact fun dir hdir => hs.visited (h dir hdir)
  | path root path => exact fun hvisible l hl => (h hvisible l hl).mono hs

lemma Advance.refl (scope : Scope) (s : Search) : Advance scope s s where
  found := List.Subset.refl _
  visited := List.Subset.refl _
  explored := fun _ _ => .inl

lemma Advance.trans (h : Advance scope s s') (h' : Advance scope s' s'') : Advance scope s s'' where
  found := List.Subset.trans h.found h'.found
  visited := List.Subset.trans h.visited h'.visited
  explored := fun dir hdir hmarked => (h'.explored dir hdir hmarked).elim
    (fun hmarked => (h.explored dir hdir hmarked).imp_right fun hexplored => hexplored.mono h') .inr

lemma advance_take (scope : Scope) (s : Search) (path : Bytes) : Advance scope s (s.take path) where
  found := by
    rw [Search.take]
    split_ifs
    · exact List.Subset.refl _
    · exact List.subset_cons_self _ _
  visited := by
    rw [Search.visited_take]
    exact List.Subset.refl _
  explored := fun dir _ hmarked => .inl (by rwa [Search.visited_take] at hmarked)

lemma mem_take (s : Search) (path : Bytes) : path ∈ (s.take path).found := by
  rw [Search.take]
  split_ifs with hfound
  · exact List.contains_iff_mem.mp hfound
  · exact List.mem_cons_self

/-- A directory that is marked and then explored. -/
lemma Advance.of_marked (h : Advance scope (s.mark dir.text) s') (hproper : scope.files.Proper)
    (hdir : scope.files.entry? dir = some .directory) (hexplored : Explored scope s' dir) : Advance scope s s' where
  found := h.found
  visited := fun _ hmem => h.visited (List.mem_cons_of_mem _ hmem)
  explored := by
    intro d hd hmarked
    rcases h.explored d hd hmarked with hbefore | hexplored'
    · rcases List.mem_cons.mp hbefore with heq | hbefore
      · exact .inr (Location.text_injective (hproper.named hd) (hproper.named hdir) heq ▸ hexplored)
      · exact .inl hbefore
    · exact .inr hexplored'

/-- Whoever explores what was marked leaves nothing open. -/
lemma AllExplored.advance (h : AllExplored scope s) (hs : Advance scope s s') : AllExplored scope s' :=
  fun dir hdir hmarked => (hs.explored dir hdir hmarked).elim (fun hmarked => (h dir hdir hmarked).mono hs) id

/-- The entries of a directory are looked at by the path that the walk has come by. -/
lemma mem_entries (h : scope.files.Proper) (hnamed : Location.Named (root ++ names))
    (hleads : scope.files.locate true (Location.text (root ++ names)) = .ok (.found dir)) :
    t ∈ (scope.entries root.text (Location.text (root ++ names))).todo ↔ ∃ name e,
      scope.files.entry? (dir ++ [name]) = some e ∧ t = .path root.text (Location.text (root ++ names ++ [name])) := by
  have hnames : scope.files.namesAt (Location.text (root ++ names)) = scope.files.names dir := by
    simp only [namesAt, hleads]
  rw [Scope.entries, hnames, List.mem_map]
  constructor
  · rintro ⟨name, hname, rfl⟩
    obtain ⟨e, he⟩ := Option.isSome_iff_exists.mp (mem_names.mp hname)
    rw [Location.join_text hnamed (h.legal _ e he name (by simp)).toIsName]
    exact ⟨name, e, he, rfl⟩
  · rintro ⟨name, e, he, rfl⟩
    refine ⟨name, mem_names.mpr (by rw [he, Option.isSome_some]), ?_⟩
    rw [Location.join_text hnamed (h.legal _ e he name (by simp)).toIsName]

lemma isExcluded_eq_false (h : scope.Follows) (path : Bytes) : scope.isExcluded path = false := by
  rw [Scope.isExcluded, h.excludes]
  rfl

lemma isWanted_eq (h : scope.Follows) (path : Bytes) :
    scope.isWanted path = scope.extensions.contains (Path.lower (Path.extension path)) := by
  simp [Scope.isWanted, isExcluded_eq_false h, h.includes]

namespace Below

lemma length_le (hbelow : Below scope.files root dir names name e) :
    (Location.text (root ++ names ++ [name])).length ≤ maxPathLength := by
  have hlength := hbelow.roomy (names ++ [name]) e (by rw [← List.append_assoc]; exact hbelow.entry)
  rwa [← List.append_assoc] at hlength

variable (h : scope.files.Proper) (hbelow : Below scope.files root dir names name e)
include h hbelow

lemma isName : Path.IsName name := (h.legal _ e hbelow.entry name (by simp)).toIsName

lemma directory : scope.files.entry? (dir ++ names) = some .directory := by simpa using h.parent _ e hbelow.entry

lemma locate {follow : Bool} (hlink : follow = true → e.isLink = false) :
    scope.files.locate follow (Location.text (root ++ names ++ [name])) = .ok (.found (dir ++ names ++ [name])) :=
  h.locate_concat hbelow.named hbelow.leads hbelow.entry hlink hbelow.length_le

lemma lstat : scope.files.lstat (Location.text (root ++ names ++ [name])) = .ok e :=
  entryAt_of_locate (hbelow.locate h (nofun : false = true → _)) hbelow.entry "lstat"

lemma path_ne : Location.text (root ++ names ++ [name]) ≠ root.text := by
  intro heq
  have hroot := Location.text_injective (h.named_concat hbelow.named hbelow.entry)
    (List.forall_mem_append.mp hbelow.named).1 heq
  simp at hroot

lemma done_of_handled (hhandled : ¬ IsDotted name → Handled scope s (dir ++ names ++ [name])) :
    (Task.path root.text (Location.text (root ++ names ++ [name]))).Done scope s := by
  intro hvisible l hl
  cases (hbelow.locate h (nofun : false = true → _)).symm.trans hl
  exact hhandled ((isHidden_text (hbelow.isName h) _).mp hvisible)

/-- A link on the way leads where it leads by itself. -/
lemma canonical? {next : Location}
    (hnext : scope.files.locate true (Location.text (dir ++ names ++ [name])) = .ok (.found next)) :
    scope.files.canonical? (Location.text (root ++ names ++ [name])) = some next.text :=
  h.canonical?_concat hbelow.named hbelow.leads (hbelow.directory h) hbelow.entry hnext hbelow.length_le

end Below

/-- The entries of a directory are sure to go well, and it is explored when they are done. -/
lemma entries_sure (h : scope.files.Proper) (hnamed : Location.Named (root ++ names)) (hroomy : Roomy scope.files root dir)
    (hleads : scope.files.locate true (Location.text (root ++ names)) = .ok (.found (dir ++ names))) :
    (∀ t ∈ (scope.entries root.text (Location.text (root ++ names))).todo, t.Sure scope.files) ∧
      ∀ s, (∀ t ∈ (scope.entries root.text (Location.text (root ++ names))).todo, t.Done scope s) →
        Explored scope s (dir ++ names) := by
  constructor
  · intro t ht
    obtain ⟨name, e, he, rfl⟩ := (mem_entries h hnamed hleads).mp ht
    exact .path ⟨hnamed, hroomy, hleads, he⟩
  · intro s hdone name e he hvisible
    have hbelow : Below scope.files root dir names name e := ⟨hnamed, hroomy, hleads, he⟩
    have hmem := (mem_entries h hnamed hleads).mpr ⟨name, e, he, rfl⟩
    exact hdone _ hmem ((isHidden_text (hbelow.isName h) _).mpr hvisible) _ (hbelow.locate h nofun)

/-- What is left to do after a step goes well, and the part is done once that is done. -/
def GoesOn (scope : Scope) (t : Task) (s : Search) (next : Onward) (s₁ : Search) : Prop :=
  (∀ t' ∈ next.todo, t'.Sure scope.files) ∧
    ∀ s₂, Advance scope s₁ s₂ → (∀ t' ∈ next.todo, t'.Done scope s₂) → Advance scope s s₂ ∧ t.Done scope s₂

lemma goesOn_nothing (h : Advance scope s s') (hdone : t.Done scope s') : GoesOn scope t s {} s' :=
  ⟨List.forall_mem_nil _, fun _ hadvance _ => ⟨h.trans hadvance, hdone.mono hadvance⟩⟩

/-- A directory that is marked goes on with its entries. -/
lemma goesOn_entries (h : scope.files.Proper) (hnamed : Location.Named (root ++ names)) (hroomy : Roomy scope.files root dir)
    (hleads : scope.files.locate true (Location.text (root ++ names)) = .ok (.found (dir ++ names)))
    (hdir : scope.files.entry? (dir ++ names) = some .directory)
    (hdone : ∀ s₂ : Search, Location.text (dir ++ names) ∈ s₂.visited → t.Done scope s₂) :
    GoesOn scope t s (scope.entries root.text (Location.text (root ++ names))) (s.mark (Location.text (dir ++ names))) := by
  obtain ⟨hsure, hexplored⟩ := entries_sure h hnamed hroomy hleads
  refine ⟨hsure, fun s₂ hadvance hall => ⟨hadvance.of_marked h hdir (hexplored s₂ hall), hdone s₂ ?_⟩⟩
  exact hadvance.visited List.mem_cons_self

section
variable {next : Onward}

lemma goesOn_directory (h : scope.files.Proper) (hfollows : scope.Follows)
    (hbelow : Below scope.files root dir names name .directory)
    (hlooked : Looked scope root.text (Location.text (root ++ names ++ [name])) s next s') :
    GoesOn scope (.path root.text (Location.text (root ++ names ++ [name]))) s next s' := by
  have hthere : scope.files.locate true (Location.text (root ++ names ++ [name])) = .ok (.found (dir ++ names ++ [name])) :=
    hbelow.locate h fun _ => rfl
  have hdone : ∀ s₂ : Search, Location.text (dir ++ names ++ [name]) ∈ s₂.visited →
      (Task.path root.text (Location.text (root ++ names ++ [name]))).Done scope s₂ :=
    fun s₂ hmarked => hbelow.done_of_handled h fun _ => handled_directory hbelow.entry hmarked
  cases hlooked with
  | root hentry heq => exact absurd heq (hbelow.path_ne h)
  | enter hentry hne hvisible hkept hnew =>
    rw [key_of_locate hthere]
    have hnamed := h.named_concat hbelow.named hbelow.entry
    have hdir := hbelow.entry
    rw [List.append_assoc, List.append_assoc] at hthere hdone ⊢
    rw [List.append_assoc] at hnamed hdir
    exact goesOn_entries h hnamed hbelow.roomy hthere hdir hdone
  | again hentry hne hvisited =>
    rw [key_of_locate hthere] at hvisited
    exact goesOn_nothing (.refl scope s) (hdone s hvisited)
  | pass hentry hne hpass =>
    refine goesOn_nothing (.refl scope s) fun hvisible => ?_
    rcases hpass with hhidden | hexcluded
    · cases hvisible.symm.trans hhidden
    · cases (isExcluded_eq_false hfollows _).symm.trans hexcluded
  | file hentry | follow hentry | skip hentry => cases (hbelow.lstat h).symm.trans hentry

lemma goesOn_file {data : FileData} (h : scope.files.Proper) (hfollows : scope.Follows)
    (hbelow : Below scope.files root dir names name (.file data))
    (hlooked : Looked scope root.text (Location.text (root ++ names ++ [name])) s next s') :
    GoesOn scope (.path root.text (Location.text (root ++ names ++ [name]))) s next s' := by
  cases hlooked with
  | file hentry =>
    refine goesOn_nothing ?_ fun hvisible => ?_
    · split_ifs
      · exact advance_take scope s _
      · exact .refl scope s
    · refine hbelow.done_of_handled h (fun _ => handled_file hbelow.entry fun heligible => ?_) hvisible
      have hwanted : scope.isWanted (Location.text (root ++ names ++ [name])) = true := by
        rw [isWanted_eq hfollows, List.contains_iff_mem, Location.extension_text (hbelow.isName h)]
        rwa [Location.extension_text (hbelow.isName h)] at heligible
      rw [if_pos (by rw [hvisible, hwanted, Bool.and_false]; rfl)]
      exact ⟨_, mem_take s _, hbelow.locate h fun _ => rfl⟩
  | root hentry | enter hentry | again hentry | pass hentry | follow hentry | skip hentry =>
    cases (hbelow.lstat h).symm.trans hentry

lemma goesOn_link {target : Bytes} (h : scope.files.Proper)
    (hshort : ∀ l e, scope.files.entry? l = some e → l.text.length ≤ maxPathLength) (hfollows : scope.Follows)
    (hbelow : Below scope.files root dir names name (.link target))
    (hlooked : Looked scope root.text (Location.text (root ++ names ++ [name])) s next s') :
    GoesOn scope (.path root.text (Location.text (root ++ names ++ [name]))) s next s' := by
  -- where a link leads to a directory, its path is known to the system
  have hself : ∀ {l : Location}, scope.files.entry? l = some .directory →
      scope.files.locate true l.text = .ok (.found l) :=
    fun hl => h.locate_text hl (fun _ => rfl) (hshort _ _ hl)
  cases hlooked with
  | @follow text target' hentry hcanonical hstat hfollow =>
    obtain ⟨l, rfl, hlocate, hl⟩ := h.exists_of_canonical? (Location.isAbsolute_text _) hcanonical hstat
    refine ⟨List.forall_mem_singleton.mpr ?_, fun s₂ hadvance hall => ⟨hadvance, ?_⟩⟩
    · have hroomy : Roomy scope.files l l := fun names e he => hshort _ e he
      exact .walk (h.named hl) hroomy hlocate
        (entryAt_of_locate (h.locate_text hl (nofun : false = true → _) (hshort _ _ hl)) hl "lstat")
    · refine hbelow.done_of_handled h fun _ => handled_link hbelow.entry fun next hnext hdir => ?_
      have hsame : l.text = next.text := Option.some.inj (hcanonical.symm.trans (hbelow.canonical? h hnext))
      refine List.forall_mem_singleton.mp hall next ?_
      rw [hsame]
      exact hself hdir
  | @skip text hentry hskip wanted =>
    refine goesOn_nothing ?_ fun hvisible => ?_
    · split_ifs
      · exact advance_take scope s _
      · exact .refl scope s
    · refine hbelow.done_of_handled h (fun _ => handled_link hbelow.entry fun next hnext hdir => ?_) hvisible
      have hstat : scope.files.stat next.text = .ok .directory := entryAt_of_locate (hself hdir) hdir "stat"
      cases (hskip hvisible _ (hbelow.canonical? h hnext) hstat).symm.trans hfollows.follow
  | root hentry | enter hentry | again hentry | pass hentry | file hentry => cases (hbelow.lstat h).symm.trans hentry

end

/-- A part of a search that does not fail, leaves to do what goes well, and is done once that is done. -/
def GoesWell (scope : Scope) (t : Task) (s : Search) : Prop :=
  ∃ next s₁, (step scope t).run s = (.ok next, s₁) ∧ s₁.cancellation = .never ∧ GoesOn scope t s next s₁

lemma stable_never : Stable fun s => s.cancellation = .never where
  check := fun s hs => by rw [hs, Cancellation.next_never]
  add := fun _ _ hs _ => hs
  visit := fun _ _ hs _ => hs

lemma asked_of_never (hs : s.cancellation = .never) : s.asked = s := by
  obtain ⟨found, visited, cancellation⟩ := s
  obtain rfl : cancellation = .never := hs
  rfl

/-- Where there is something, looking at it does not fail. -/
lemma run_look_of_never (hs : s.cancellation = .never) (he : scope.files.lstat path = .ok e) (root : Bytes) :
    (look scope root path).run s = (lookAt scope root path e).run s := by
  rw [run_look, hs, Cancellation.isDue_never, if_neg Bool.false_ne_true, he, asked_of_never hs]

/-- A walk from its root goes well. -/
lemma goesWell_walk (h : scope.files.Proper) (hnamed : root.Named) (hroomy : Roomy scope.files root dir)
    (hleads : scope.files.locate true root.text = .ok (.found dir))
    (hunlinked : scope.files.lstat root.text = .ok .directory) (hs : s.cancellation = .never) :
    GoesWell scope (.walk root.text) s := by
  have hdone : ∀ s₂ : Search, dir.text ∈ s₂.visited → (Task.walk root.text).Done scope s₂ := by
    intro s₂ hmarked d hd
    cases hleads.symm.trans hd
    exact hmarked
  by_cases hvisited : dir.text ∈ s.visited
  · have hkey : scope.key root.text ∈ s.visited := by rwa [key_of_locate hleads]
    exact ⟨{}, s, step_walk_of_marked hkey, hs, goesOn_nothing (.refl scope s) (hdone s hvisited)⟩
  · have hmark : (s.mark dir.text).cancellation = .never := hs
    obtain ⟨l, hlocate, hdir⟩ := h.exists_of_lstat (Location.isAbsolute_text root) hunlinked rfl
    cases hleads.symm.trans hlocate
    obtain ⟨next, s₁, hrun, hlooked⟩ := looked root.text hunlinked (s.mark dir.text)
    have hstep : (step scope (.walk root.text)).run s = (.ok next, s₁) := by
      rw [step_walk_of_new (by rwa [key_of_locate hleads]), key_of_locate hleads, run_adapt,
        run_look_of_never hmark hunlinked, hrun]
      rfl
    cases hlooked with
    | root hentry heq =>
      refine ⟨_, _, hstep, hmark, ?_⟩
      rw [← List.append_nil root] at hnamed
      have hgoes : GoesOn scope (.walk root.text) s (scope.entries root.text (Location.text (root ++ [])))
          (s.mark (Location.text (dir ++ []))) :=
        goesOn_entries h hnamed hroomy (by rwa [List.append_nil, List.append_nil]) (by rwa [List.append_nil])
          (by rwa [List.append_nil])
      rwa [List.append_nil, List.append_nil] at hgoes
    | enter hentry hbelow | again hentry hbelow | pass hentry hbelow => exact absurd rfl hbelow
    | file hentry | follow hentry | skip hentry => cases hunlinked.symm.trans hentry

/-- Whatever is sure goes well. -/
lemma goesWell (h : scope.files.Proper) (hshort : ∀ l e, scope.files.entry? l = some e → l.text.length ≤ maxPathLength)
    (hfollows : scope.Follows) (ht : t.Sure scope.files) (hs : s.cancellation = .never) : GoesWell scope t s := by
  cases ht with
  | walk named roomy leads unlinked => exact goesWell_walk h named roomy leads unlinked hs
  | @path root dir names name e hbelow =>
    obtain ⟨next, s₁, hrun, hlooked⟩ := looked root.text (hbelow.lstat h) s
    refine ⟨next, s₁, ?_, hlooked.keeps stable_never hs, ?_⟩
    · rw [step, run_look_of_never hs (hbelow.lstat h), hrun]
    · cases e with
      | directory => exact goesOn_directory h hfollows hbelow hlooked
      | file data => exact goesOn_file h hfollows hbelow hlooked
      | link target => exact goesOn_link h hshort hfollows hbelow hlooked

/-- A run of what goes well does not fail, and all of it is done. -/
theorem Runs.advance (hruns : Runs scope ts s log result s') (h : scope.files.Proper)
    (hshort : ∀ l e, scope.files.entry? l = some e → l.text.length ≤ maxPathLength) (hfollows : scope.Follows)
    (hts : ∀ t ∈ ts, t.Sure scope.files) (hs : s.cancellation = .never) :
    result = .ok () ∧ Advance scope s s' ∧ ∀ t ∈ ts, t.Done scope s' := by
  induction hruns with
  | done => exact ⟨rfl, .refl scope _, List.forall_mem_nil _⟩
  | refused hstep =>
    obtain ⟨next, s₁, hrun, -⟩ := goesWell h hshort hfollows (hts _ List.mem_cons_self) hs
    cases hstep.symm.trans hrun
  | failed hstep htodo ih =>
    obtain ⟨next, s₁, hrun, hnever, hsure, -⟩ := goesWell h hshort hfollows (hts _ List.mem_cons_self) hs
    cases hstep.symm.trans hrun
    cases (ih hsure hnever).1
  | next hstep htodo hrest ih ihrest =>
    obtain ⟨ht, hts⟩ := List.forall_mem_cons.mp hts
    obtain ⟨next, s₁, hrun, hnever, hsure, hafter⟩ := goesWell h hshort hfollows ht hs
    cases hstep.symm.trans hrun
    obtain ⟨-, hbelow, hdone⟩ := ih hsure hnever
    obtain ⟨hfirst, htdone⟩ := hafter _ hbelow hdone
    obtain ⟨hresult, hlast, hall⟩ := ihrest hts (htodo.keeps stable_never hnever)
    exact ⟨hresult, hfirst.trans hlast, List.forall_mem_cons.mpr ⟨htdone.mono hlast, hall⟩⟩

/-- What is reached from inputs that are done is marked, if all that is marked is explored. -/
lemma Reached.visited {inputs : List Bytes} (h : scope.files.Proper) (hwork : Path.isAbsolute scope.workDir = true)
    (hdirs : ∀ text ∈ inputs, scope.files.stat (inputPath scope.workDir text) = .ok .directory)
    (hexplored : AllExplored scope s) (hdone : ∀ text ∈ inputs, (Task.input text).Done scope s)
    (hreached : Reached scope.files scope.workDir inputs dir) :
    scope.files.entry? dir = some .directory ∧ dir.text ∈ s.visited := by
  induction hreached with
  | @input text dir mem leads =>
    obtain ⟨k, -, hk⟩ := exists_inputPath_eq hwork text
    have habsolute : Path.isAbsolute (inputPath scope.workDir text) = true := by rw [hk, Location.isAbsolute_text]
    obtain ⟨l, hlocate, hl⟩ := h.exists_of_stat habsolute (hdirs text mem)
    cases leads.symm.trans hlocate
    exact ⟨hl, hdone text mem dir leads⟩
  | child above visible directory ih =>
    exact ⟨directory, (hexplored _ ih.1 ih.2 _ _ directory visible).directory directory⟩
  | link above visible link leads directory ih =>
    exact ⟨directory, (hexplored _ ih.1 ih.2 _ _ link visible).link _ _ link leads directory⟩

end

/-- Inputs that are directories, below which no path is too long. One that is a link itself leads to a directory that
is reached from the inputs before it. -/
structure Walkable (files : FileSystem) (workDir : Bytes) (inputs : List Bytes) : Prop where
  directory : ∀ text ∈ inputs, files.stat (inputPath workDir text) = .ok .directory
  short : ∀ text ∈ inputs, ∀ dir names e, files.locate true (inputPath workDir text) = .ok (.found dir) →
    files.entry? (dir ++ names) = some e →
    (names.foldl (fun path name => Path.join [path, name]) (inputPath workDir text)).length ≤ maxPathLength
  link : ∀ before text after, inputs = before ++ text :: after →
    ∀ target, files.lstat (inputPath workDir text) = .ok (.link target) →
    ∃ dir, files.locate true (inputPath workDir text) = .ok (.found dir) ∧ Reached files workDir before dir

section
variable {scope : Scope} {s s' : Search} {log : List Bytes} {result : Except Failure Unit} {text : Bytes}
  {before after : List Bytes}

/-- An input is walked, or has been reached before. -/
lemma runs_input (hruns : Runs scope [.walk (inputPath scope.workDir text)] s log result s') (h : scope.files.Proper)
    (hwork : Path.isAbsolute scope.workDir = true)
    (hshort : ∀ l e, scope.files.entry? l = some e → l.text.length ≤ maxPathLength) (hfollows : scope.Follows)
    (hinputs : Walkable scope.files scope.workDir (before ++ text :: after)) (hs : s.cancellation = .never)
    (hexplored : AllExplored scope s) (hdone : ∀ text ∈ before, (Task.input text).Done scope s) :
    result = .ok () ∧ Advance scope s s' ∧ (Task.input text).Done scope s' := by
  have hdir := hinputs.directory text (by simp)
  obtain ⟨k, hk, hpath⟩ := exists_inputPath_eq hwork text
  have habsolute : Path.isAbsolute (inputPath scope.workDir text) = true := by rw [hpath, Location.isAbsolute_text]
  obtain ⟨dir, hlocate, hentry⟩ := h.exists_of_stat habsolute hdir
  rcases h.lstat_of_stat habsolute hdir with hlstat | ⟨target, hlink⟩
  · have hroomy : Roomy scope.files k dir := by
      intro names e he
      have hnames : Location.Named (k ++ names) :=
        List.forall_mem_append.mpr ⟨hk, (List.forall_mem_append.mp (h.named he)).2⟩
      rw [← Location.foldl_join_text hnames, ← hpath]
      exact hinputs.short text (by simp) dir names e hlocate he
    have hsure : (Task.walk (inputPath scope.workDir text)).Sure scope.files := by
      rw [hpath] at hlocate hlstat ⊢
      exact .walk hk hroomy hlocate hlstat
    obtain ⟨hresult, hadvance, hwalked⟩ :=
      hruns.advance h hshort hfollows (List.forall_mem_singleton.mpr hsure) hs
    exact ⟨hresult, hadvance, hwalked (.walk _) List.mem_cons_self⟩
  · obtain ⟨dir', hlocate', hreached⟩ := hinputs.link before text after rfl target hlink
    cases hlocate.symm.trans hlocate'
    have hvisited : dir.text ∈ s.visited := (hreached.visited h hwork
      (fun text htext => hinputs.directory text (List.mem_append_left _ htext)) hexplored hdone).2
    have hkey : scope.key (inputPath scope.workDir text) ∈ s.visited := by rwa [key_of_locate hlocate]
    have hwalk : Runs scope [.walk (inputPath scope.workDir text)] s [] (.ok ()) s :=
      .next (step_walk_of_marked hkey) .done .done
    obtain ⟨-, rfl, rfl⟩ := hruns.unique hwalk
    refine ⟨rfl, .refl scope s', fun d hd => ?_⟩
    cases hlocate.symm.trans hd
    exact hvisited

/-- Inputs are done one after the other, and leave nothing open. -/
lemma runs_inputs (hruns : Runs scope (after.map .input) s log result s') (h : scope.files.Proper)
    (hwork : Path.isAbsolute scope.workDir = true)
    (hshort : ∀ l e, scope.files.entry? l = some e → l.text.length ≤ maxPathLength) (hfollows : scope.Follows)
    (hinputs : Walkable scope.files scope.workDir (before ++ after)) (hs : s.cancellation = .never)
    (hexplored : AllExplored scope s) (hdone : ∀ text ∈ before, (Task.input text).Done scope s) :
    result = .ok () ∧ AllExplored scope s' ∧ ∀ text ∈ before ++ after, (Task.input text).Done scope s' := by
  induction after generalizing before s log with
  | nil =>
    cases hruns
    rw [List.append_nil]
    exact ⟨rfl, hexplored, hdone⟩
  | cons text after ih =>
    have hstep : (step scope (.input text)).run s =
        (.ok { todo := [.walk (inputPath scope.workDir text)] }, s) := by
      rw [step, run_bind, run_adapt, run_check, hs, Cancellation.isDue_never, if_neg Bool.false_ne_true, asked_of_never hs,
        hinputs.directory text (by simp)]
      rfl
    cases hruns with
    | refused hstep' => cases hstep.symm.trans hstep'
    | failed hstep' htodo =>
      cases hstep.symm.trans hstep'
      cases (runs_input htodo h hwork hshort hfollows hinputs hs hexplored hdone).1
    | next hstep' htodo hrest =>
      cases hstep.symm.trans hstep'
      obtain ⟨-, hadvance, hfirst⟩ := runs_input htodo h hwork hshort hfollows hinputs hs hexplored hdone
      have hdone' : ∀ text' ∈ before ++ [text], (Task.input text').Done scope _ :=
        List.forall_mem_append.mpr ⟨fun text' htext => (hdone text' htext).mono hadvance,
          List.forall_mem_singleton.mpr hfirst⟩
      have hinputs' : Walkable scope.files scope.workDir (before ++ [text] ++ after) := by simpa using hinputs
      simpa using ih hrest hinputs' (htodo.keeps stable_never hs) (hexplored.advance hadvance) hdone'

end

/-- A search that follows links and takes every file of a known kind is complete: in every directory that is reached
from the inputs, each file of a known kind whose name is not dotted is found, by some path that leads there. Links may
form any cycles. -/
theorem discover_follows (r : Registry) {files : FileSystem} {o : RunOptions} {workDir : Bytes} (hproper : files.Proper)
    (hshort : ∀ l e, files.entry? l = some e → l.text.length ≤ maxPathLength)
    (hwork : resolveWorkDir files o.workingDir = .ok workDir)
    (hfollows : Scope.Follows ⟨files, workDir, o.extensions r, o⟩) (hinputs : Walkable files workDir o.inputs) :
    ∃ paths, (discover r files o .never).1 = .ok paths ∧
      ∀ dir name data, Reached files workDir o.inputs dir → files.entry? (dir ++ [name]) = some (.file data) →
        ¬ IsDotted name → Path.lower (Path.extension name) ∈ o.extensions r →
        ∃ path ∈ paths, files.locate true path = .ok (.found (dir ++ [name])) := by
  have habsolute := isAbsolute_of_resolveWorkDir hwork
  obtain ⟨log, hlog⟩ := exists_discovers r hproper o .never
  generalize discover r files o .never = outcome at hlog
  cases hlog with
  | refused hwork' => cases hwork.symm.trans hwork'
  | @searched workDir' log result s hwork' hruns =>
    cases hwork.symm.trans hwork'
    have hstart : AllExplored ⟨files, workDir, o.extensions r, o⟩ { cancellation := .never } := fun _ _ hmarked => by
      cases hmarked
    have hnone : ∀ text ∈ [], (Task.input text).Done ⟨files, workDir, o.extensions r, o⟩ { cancellation := .never } :=
      List.forall_mem_nil _
    obtain ⟨rfl, hexplored, hdone⟩ := runs_inputs hruns hproper habsolute hshort hfollows hinputs rfl hstart hnone
    refine ⟨Bytes.sort s.found, rfl, fun dir name data hreached hfile hvisible heligible => ?_⟩
    obtain ⟨hdir, hmarked⟩ := hreached.visited hproper habsolute hinputs.directory hexplored hdone
    have hname : Path.IsName name := (hproper.legal _ _ hfile name (by simp)).toIsName
    have hhandled := hexplored dir hdir hmarked name _ hfile hvisible
    obtain ⟨path, hpath, hleads⟩ := hhandled.file data hfile (by rwa [Location.extension_text hname])
    exact ⟨path, Bytes.mem_sort.mpr hpath, hleads⟩

section Crossed

/-- Two directories with a link from each to the other. -/
def crossed : FileSystem where
  entries := [(["R"], .directory),
    (["R", "out"], .directory), (["R", "out", "linked.calc"], .file ⟨[], 0o644, .outside 0⟩),
    (["R", "out", "back"], .link "../work"),
    (["R", "work"], .directory), (["R", "work", "a.calc"], .file ⟨[], 0o644, .outside 0⟩),
    (["R", "work", "link"], .link "../out")]
  workDir := ["R", "work"]

/-- A directory, and then a link to it. -/
def outAndLink : RunOptions where
  paths := ["../out", "link"]
  followSymlinks := true

lemma proper_crossed : crossed.Proper := proper_of_entries (by decide) (by decide)

lemma short_crossed : ∀ l e, crossed.entry? l = some e → l.text.length ≤ maxPathLength :=
  forall_entry? (P := fun l _ => l.text.length ≤ maxPathLength) (by decide) (by decide)

lemma locate_out : crossed.locate true (inputPath "/R/work" "../out") = .ok (.found ["R", "out"]) := by decide

lemma locate_link : crossed.locate true (inputPath "/R/work" "link") = .ok (.found ["R", "out"]) := by decide

/-- It is enough to look at the entries that are listed. -/
lemma length_foldl_join_le {files : FileSystem} {root : Bytes} {dir : Location} {names : List Bytes} {e : Entry}
    (hroot : root.length ≤ maxPathLength)
    (h : ∀ p ∈ files.entries,
      ((p.1.drop dir.length).foldl (fun path name => Path.join [path, name]) root).length ≤ maxPathLength)
    (he : files.entry? (dir ++ names) = some e) :
    (names.foldl (fun path name => Path.join [path, name]) root).length ≤ maxPathLength := by
  have hall := forall_entry? (P := fun l _ =>
    ((l.drop dir.length).foldl (fun path name => Path.join [path, name]) root).length ≤ maxPathLength)
    (by simpa using hroot) h _ e he
  rwa [List.drop_left] at hall

lemma walkable_crossed : Walkable crossed "/R/work" outAndLink.inputs where
  directory := List.forall_mem_cons.mpr ⟨by decide, List.forall_mem_singleton.mpr (by decide)⟩
  short := by
    intro text htext dir names e hlocate he
    rcases List.mem_cons.mp htext with rfl | htext
    · cases hlocate.symm.trans locate_out
      exact length_foldl_join_le (by decide) (by decide) he
    · obtain rfl := List.mem_singleton.mp htext
      cases hlocate.symm.trans locate_link
      exact length_foldl_join_le (by decide) (by decide) he
  link := by
    intro before text after hinputs target hlink
    rcases before with _ | ⟨first, _ | ⟨second, more⟩⟩
    · cases hinputs
      have hlstat : crossed.lstat (inputPath "/R/work" "../out") = .ok .directory := by decide
      cases hlstat.symm.trans hlink
    · cases hinputs
      exact ⟨_, locate_link, .input List.mem_cons_self locate_out⟩
    · simp [outAndLink, RunOptions.inputs] at hinputs

/-- The search goes through the link back, and comes to its end although that leads round in a circle. -/
theorem discover_follows_crossed : crossed.Proper ∧ Walkable crossed "/R/work" outAndLink.inputs ∧
    ∃ paths, (discover ⟨[Language.ofCalc]⟩ crossed outAndLink .never).1 = .ok paths ∧
      ∃ path ∈ paths, crossed.locate true path = .ok (.found ["R", "work", "a.calc"]) := by
  have hwork : resolveWorkDir crossed outAndLink.workingDir = .ok "/R/work" := rfl
  obtain ⟨paths, hpaths, hall⟩ :=
    discover_follows ⟨[Language.ofCalc]⟩ proper_crossed short_crossed hwork ⟨rfl, rfl, rfl⟩ walkable_crossed
  have hout : Reached crossed "/R/work" outAndLink.inputs ["R", "out"] := .input List.mem_cons_self locate_out
  have hback : crossed.locate true (Location.text ["R", "out", "back"]) = .ok (.found ["R", "work"]) := by decide
  have hvisible : ¬ IsDotted "back" := by decide
  have hlink : crossed.entry? (["R", "out"] ++ ["back"]) = some (.link "../work") := by decide
  have hreached : Reached crossed "/R/work" outAndLink.inputs ["R", "work"] :=
    .link hout hvisible hlink hback (by decide)
  refine ⟨proper_crossed, walkable_crossed, paths, hpaths, ?_⟩
  exact hall ["R", "work"] "a.calc" ⟨[], 0o644, .outside 0⟩ hreached (by decide) (by decide) (by decide)

/-- But a directory that an input leads to by a link is not searched, if nothing else has led there before: the walk
marks it, finds a link at its root, and passes over what that leads to as marked. -/
theorem link_as_input_is_passed_over :
    let o : RunOptions := { paths := ["link"], followSymlinks := true }
    crossed.Proper ∧ Scope.Follows ⟨crossed, "/R/work", o.extensions ⟨[Language.ofCalc]⟩, o⟩ ∧
    crossed.stat (inputPath "/R/work" "link") = .ok .directory ∧
    Reached crossed "/R/work" o.inputs ["R", "out"] ∧
    crossed.entry? (["R", "out"] ++ ["linked.calc"]) = some (.file ⟨[], 0o644, .outside 0⟩) ∧
    ¬ IsDotted "linked.calc" ∧
    Path.lower (Path.extension "linked.calc") ∈ o.extensions ⟨[Language.ofCalc]⟩ ∧
    (discover ⟨[Language.ofCalc]⟩ crossed o .never).1 = .ok [] := by
  intro o
  have hstat : crossed.stat (inputPath "/R/work" "link") = .ok .directory := by decide
  have hnothing : (discover ⟨[Language.ofCalc]⟩ crossed o .never).1 = .ok [] := by decide
  exact ⟨proper_crossed, ⟨rfl, rfl, rfl⟩, hstat, .input List.mem_cons_self locate_link, by decide, by decide, by decide,
    hnothing⟩

end Crossed
end LosslessTree.Discovery
