import LosslessTree.Proofs.Discovery.Order
import LosslessTree.Proofs.Files.Plain

/-! Walks through a file system without links. A walk never fails, and what it leaves behind is closed: below
every directory it has marked, it has dealt with all entries. A directory that was marked before can therefore
be passed over. -/
namespace LosslessTree.Discovery

open FileSystem

/-- The search ends without a failure, and what it gives and leaves is as described. -/
def Ends {α : Type} (m : Searching α) (s : Search) (post : α → Search → Prop) : Prop :=
  ∃ a s', m.run s = (.ok a, s') ∧ post a s'

namespace Ends

variable {α β : Type} {m : Searching α} {f : α → Searching β} {s : Search} {mid post : α → Search → Prop}
  {after : β → Search → Prop}

lemma pure {a : α} (h : post a s) : Ends (Pure.pure a) s post := ⟨a, s, rfl, h⟩

lemma mono (h : Ends m s mid) (hpost : ∀ a s', mid a s' → post a s') : Ends m s post := by
  obtain ⟨a, s', hrun, hmid⟩ := h
  exact ⟨a, s', hrun, hpost a s' hmid⟩

lemma bind (h : Ends m s mid) (hf : ∀ a s', mid a s' → Ends (f a) s' after) : Ends (m >>= f) s after := by
  obtain ⟨a, s', hrun, hmid⟩ := h
  obtain ⟨b, s'', hrun', hafter⟩ := hf a s' hmid
  refine ⟨b, s'', ?_, hafter⟩
  change ExceptT.bindCont f (m.run s).1 (m.run s).2 = _
  rw [hrun]
  exact hrun'

lemma adapt (h : Ends m s post) (g : Failure → Failure) : Ends (m.adapt g) s post := by
  obtain ⟨a, s', hrun, hpost⟩ := h
  refine ⟨a, s', ?_, hpost⟩
  change ((m.run s).1.mapError g, (m.run s).2) = _
  rw [hrun]
  rfl

lemma get {f : Search → Searching β} (h : Ends (f s) s after) : Ends (MonadState.get >>= f) s after := h

end Ends

/-- A directory that a walk from a root enters. -/
inductive Entered (scope : Scope) (root : Location) : Location → Prop
  | root : Entered scope root root
  | child {dir : Location} {name : Bytes} (above : Entered scope root dir)
      (directory : scope.files.entry? (dir ++ [name]) = some .directory)
      (visible : isHidden (Location.text (dir ++ [name])) = false)
      (kept : scope.isExcluded (Location.text (dir ++ [name])) = false) : Entered scope root (dir ++ [name])

/-- A path that a walk from a root takes. -/
inductive Taken (scope : Scope) (root : Location) : Bytes → Prop
  | mk {dir : Location} {name : Bytes} {data : FileData} (above : Entered scope root dir)
      (file : scope.files.entry? (dir ++ [name]) = some (.file data))
      (visible : isHidden (Location.text (dir ++ [name])) = false)
      (wanted : scope.isWanted (Location.text (dir ++ [name])) = true) :
      Taken scope root (Location.text (dir ++ [name]))

/-- What stands below a root has been dealt with: it was taken or marked, unless it is passed over. -/
structure Settled (scope : Scope) (s : Search) (l : Location) : Prop where
  directory : scope.files.entry? l = some .directory → isHidden l.text = false →
    scope.isExcluded l.text = false → l.text ∈ s.visited
  file : ∀ data, scope.files.entry? l = some (.file data) → isHidden l.text = false →
    scope.isWanted l.text = true → l.text ∈ s.found

/-- All entries of a directory have been dealt with. -/
def Closed (scope : Scope) (s : Search) (dir : Location) : Prop :=
  ∀ name e, scope.files.entry? (dir ++ [name]) = some e → Settled scope s (dir ++ [name])

/-- Every directory that is marked is closed. -/
def AllClosed (scope : Scope) (s : Search) : Prop :=
  ∀ dir : Location, dir.Named → dir.text ∈ s.visited → Closed scope s dir

/-- From one state of a search to another, only such paths were found as are offered, and all directories
were closed that were marked. -/
structure Progress (scope : Scope) (offered : Bytes → Prop) (s s' : Search) : Prop where
  never : s.cancellation = .never → s'.cancellation = .never
  found : ∀ path ∈ s.found, path ∈ s'.found
  visited : ∀ dir ∈ s.visited, dir ∈ s'.visited
  sound : ∀ path ∈ s'.found, path ∈ s.found ∨ offered path
  closed : ∀ dir : Location, dir.Named → dir.text ∈ s'.visited → dir.text ∈ s.visited ∨ Closed scope s' dir

section
variable {scope : Scope} {offered offered' : Bytes → Prop} {s s' s'' : Search} {l root dir : Location}
  {path name : Bytes} {e : Entry}

lemma settled_of_file {data : FileData} (he : scope.files.entry? l = some (.file data))
    (h : isHidden l.text = false → scope.isWanted l.text = true → l.text ∈ s.found) : Settled scope s l where
  directory := fun hl => nomatch he.symm.trans hl
  file := fun _ _ => h

lemma settled_of_directory (he : scope.files.entry? l = some .directory)
    (h : isHidden l.text = false → scope.isExcluded l.text = false → l.text ∈ s.visited) : Settled scope s l where
  directory := fun _ => h
  file := fun _ hl => nomatch he.symm.trans hl

lemma Settled.progress (h : Settled scope s l) (hp : Progress scope offered s s') : Settled scope s' l where
  directory := fun hl hvisible hkept => hp.visited _ (h.directory hl hvisible hkept)
  file := fun data hl hvisible hwanted => hp.found _ (h.file data hl hvisible hwanted)

lemma Closed.progress (h : Closed scope s l) (hp : Progress scope offered s s') : Closed scope s' l :=
  fun name e he => (h name e he).progress hp

lemma Progress.refl (scope : Scope) (offered : Bytes → Prop) (s : Search) : Progress scope offered s s where
  never := id
  found := fun _ => id
  visited := fun _ => id
  sound := fun _ => .inl
  closed := fun _ _ => .inl

lemma Progress.trans (h : Progress scope offered s s') (h' : Progress scope offered s' s'') :
    Progress scope offered s s'' where
  never := h'.never ∘ h.never
  found := fun path hpath => h'.found path (h.found path hpath)
  visited := fun dir hdir => h'.visited dir (h.visited dir hdir)
  sound := fun path hpath => (h'.sound path hpath).elim (h.sound path) .inr
  closed := fun dir hnamed hdir => (h'.closed dir hnamed hdir).elim
    (fun hdir => (h.closed dir hnamed hdir).imp_right fun hclosed => hclosed.progress h') .inr

lemma Progress.mono (h : Progress scope offered s s') (hoffered : ∀ path, offered path → offered' path) :
    Progress scope offered' s s' :=
  { h with sound := fun path hpath => (h.sound path hpath).imp_right (hoffered path) }

/-- A directory that is marked and then closed. -/
lemma Progress.of_marked (h : Progress scope offered { s with visited := dir.text :: s.visited } s')
    (hnamed : dir.Named) (hdir : Closed scope s' dir) : Progress scope offered s s' where
  never := h.never
  found := h.found
  visited := fun path hpath => h.visited path (List.mem_cons_of_mem _ hpath)
  sound := h.sound
  closed := fun l hl hvisited => (h.closed l hl hvisited).elim
    (fun hmarked => (List.mem_cons.mp hmarked).elim
      (fun heq => .inr (Location.text_injective hl hnamed heq ▸ hdir)) .inl) .inr

/-- One part of a search after the other makes progress, and what one has reached is not lost. -/
lemma ends_forM {α : Type} {xs : List α} {f : α → Searching PUnit} (reached : α → Search → Prop)
    (hkeep : ∀ x s s', reached x s → Progress scope offered s s' → reached x s')
    (hf : ∀ x ∈ xs, ∀ s, s.cancellation = .never →
      Ends (f x) s fun _ s' => Progress scope offered s s' ∧ reached x s')
    (hs : s.cancellation = .never) :
    Ends (xs.forM f) s fun _ s' => Progress scope offered s s' ∧ ∀ x ∈ xs, reached x s' := by
  induction xs generalizing s with
  | nil => exact .pure ⟨.refl scope offered s, List.forall_mem_nil _⟩
  | cons x xs ih =>
    obtain ⟨hx, hxs⟩ := List.forall_mem_cons.mp hf
    refine (hx s hs).bind fun _ s' hs' => (ih hxs (hs'.1.never hs)).mono fun _ s'' hs'' => ?_
    exact ⟨hs'.1.trans hs''.1, List.forall_mem_cons.mpr ⟨hkeep x s' s'' hs'.2 hs''.1, hs''.2⟩⟩

lemma ends_check (hs : s.cancellation = .never) : Ends check s fun _ s' => s' = s := by
  refine ⟨(), s, ?_, rfl⟩
  obtain ⟨found, visited, cancellation⟩ := s
  obtain rfl : cancellation = .never := hs
  rfl

lemma ends_add (scope : Scope) (hpath : offered path) (s : Search) :
    Ends (add path) s fun _ s' => Progress scope offered s s' ∧ path ∈ s'.found := by
  refine ⟨(), if s.found.contains path then s else { s with found := path :: s.found }, rfl, ?_⟩
  by_cases hfound : s.found.contains path = true
  · rw [if_pos hfound]
    exact ⟨.refl scope offered s, List.contains_iff_mem.mp hfound⟩
  · rw [if_neg hfound]
    exact ⟨{ never := id
             found := fun _ => List.mem_cons_of_mem _
             visited := fun _ => id
             sound := fun p hp => (List.mem_cons.mp hp).elim (fun heq => .inr (heq ▸ hpath)) .inl
             closed := fun _ _ => .inl }, List.mem_cons_self⟩

/-- A visit marks a directory, and tells whether it was new. -/
lemma ends_visit (h : scope.files.Plain) (he : scope.files.entry? l = some e) (s : Search) :
    Ends (visit scope l.text) s fun new s' =>
      new = false ∧ s' = s ∧ l.text ∈ s.visited ∨
        new = true ∧ s' = { s with visited := l.text :: s.visited } := by
  -- without links a path is its own key
  have hkey : (scope.files.canonical? l.text).getD l.text = l.text := by
    rw [h.canonical?_text he, Option.getD_some]
  refine Ends.get ?_
  rw [hkey]
  by_cases hvisited : s.visited.contains l.text = true
  · rw [if_pos hvisited]
    exact .pure (.inl ⟨rfl, rfl, List.contains_iff_mem.mp hvisited⟩)
  · rw [if_neg hvisited]
    exact ⟨true, _, rfl, .inr ⟨rfl, rfl⟩⟩

lemma isName_last (h : scope.files.Plain) (he : scope.files.entry? (dir ++ [name]) = some e) : Path.IsName name :=
  h.named he name (List.mem_append_right _ List.mem_cons_self)

/-- Where a walk comes from a directory, when it goes on to one of its names. -/
lemma join_entry (h : scope.files.Plain) (he : scope.files.entry? (dir ++ [name]) = some e) :
    Path.join [dir.text, name] = Location.text (dir ++ [name]) :=
  Location.join_text (List.forall_mem_append.mp (h.named he)).1 (isName_last h he)

/-- The entries of a directory are walked one after the other, so the directory is closed. -/
lemma ends_entries (fuel : Nat) (h : scope.files.Plain) (hdir : scope.files.entry? dir = some .directory)
    (hwalk : ∀ name e, scope.files.entry? (dir ++ [name]) = some e → ∀ s, s.cancellation = .never →
      Ends (walkFrom scope fuel root.text (Location.text (dir ++ [name]))) s fun _ s' =>
        Progress scope offered s s' ∧ Settled scope s' (dir ++ [name]))
    (hs : s.cancellation = .never) :
    Ends ((scope.files.namesAt dir.text).forM fun name =>
        walkFrom scope fuel root.text (Path.join [dir.text, name])) s fun _ s' =>
      Progress scope offered s s' ∧ Closed scope s' dir := by
  rw [h.namesAt_text hdir]
  refine (ends_forM (fun name s => Settled scope s (dir ++ [name]))
    (fun name s s' hsettled hp => hsettled.progress hp) (fun name hname s hs => ?_) hs).mono
    fun _ s' ⟨hp, hsettled⟩ => ⟨hp, fun name e he => hsettled name (mem_names.mpr (by rw [he, Option.isSome_some]))⟩
  obtain ⟨e, he⟩ := Option.isSome_iff_exists.mp (mem_names.mp hname)
  rw [join_entry h he]
  exact hwalk name e he s hs

/-- A directory is entered once: whoever comes first closes it. -/
lemma ends_enter {walkEntries : Searching Unit} (h : scope.files.Plain)
    (hdir : scope.files.entry? dir = some .directory)
    (hwalk : ∀ s, s.cancellation = .never →
      Ends walkEntries s fun _ s' => Progress scope offered s s' ∧ Closed scope s' dir)
    (hs : s.cancellation = .never) :
    Ends (do if ← visit scope dir.text then walkEntries) s fun _ s' =>
      Progress scope offered s s' ∧ dir.text ∈ s'.visited := by
  refine (ends_visit h hdir s).bind fun new s' hvisit => ?_
  rcases hvisit with ⟨rfl, rfl, hvisited⟩ | ⟨rfl, rfl⟩
  · exact .pure ⟨.refl scope offered s', hvisited⟩
  · -- the directory is marked before it is closed, and whoever meets it in between passes it over
    rw [if_pos rfl]
    refine (hwalk { s with visited := dir.text :: s.visited } hs).mono fun _ s'' ⟨hp, hclosed⟩ => ?_
    exact ⟨hp.of_marked (h.named hdir) hclosed, hp.visited _ List.mem_cons_self⟩

lemma Entered.directory (hroot : scope.files.entry? root = some .directory) (h : Entered scope root dir) :
    scope.files.entry? dir = some .directory := by
  cases h with
  | root => exact hroot
  | child above directory visible kept => exact directory

/-- What a walk enters is marked in the end. -/
lemma Entered.visited (hplain : scope.files.Plain) (hroot : scope.files.entry? root = some .directory)
    (hclosed : AllClosed scope s) (hvisited : root.text ∈ s.visited) (h : Entered scope root dir) : dir.text ∈ s.visited := by
  induction h with
  | root => exact hvisited
  | @child dir name above directory visible kept ih =>
    have hnamed : dir.Named := hplain.named (above.directory hroot)
    exact (hclosed dir hnamed ih name .directory directory).directory directory visible kept

/-- And what it takes is found. -/
lemma Taken.found (hplain : scope.files.Plain) (hroot : scope.files.entry? root = some .directory)
    (hclosed : AllClosed scope s) (hvisited : root.text ∈ s.visited) (h : Taken scope root path) : path ∈ s.found := by
  obtain ⟨above, file, visible, wanted⟩ := h
  have hdir := above.visited hplain hroot hclosed hvisited
  exact (hclosed _ (hplain.named (above.directory hroot)) hdir _ _ file).file _ file visible wanted

lemma Entered.length_le (h : Entered scope root dir) : root.length ≤ dir.length := by
  induction h with
  | root => exact Nat.le_refl _
  | child above directory visible kept ih =>
    rw [List.length_append]
    exact Nat.le_add_right_of_le ih

/-- What stands below a root is not the root. -/
lemma Entered.text_ne (h : scope.files.Plain) (hdir : Entered scope root dir) (hroot : root.Named)
    (he : scope.files.entry? (dir ++ [name]) = some e) :
    (Location.text (dir ++ [name]) != root.text) = true := by
  rw [bne_iff_ne]
  intro heq
  have hlength := hdir.length_le
  rw [← Location.text_injective (h.named he) hroot heq, List.length_append, List.length_singleton] at hlength
  omega

/-- A file is taken, unless it is passed over. -/
lemma ends_file {data : FileData} (he : scope.files.entry? l = some (.file data))
    (hoffered : isHidden l.text = false → scope.isWanted l.text = true → offered l.text) (s : Search) :
    Ends (if (!isHidden l.text && scope.isWanted l.text) = true then add l.text else pure ()) s fun _ s' =>
      Progress scope offered s s' ∧ Settled scope s' l := by
  by_cases htaken : (!isHidden l.text && scope.isWanted l.text) = true
  · rw [if_pos htaken]
    rw [Bool.and_eq_true, Bool.not_eq_true'] at htaken
    refine (ends_add scope (hoffered htaken.1 htaken.2) s).mono fun _ s' ⟨hp, hfound⟩ => ?_
    exact ⟨hp, settled_of_file he fun _ _ => hfound⟩
  · rw [if_neg htaken]
    refine .pure ⟨.refl scope offered s, settled_of_file he fun hvisible hwanted => absurd ?_ htaken⟩
    rw [hvisible, hwanted]
    rfl

/-- A directory is entered, unless it is passed over. -/
lemma ends_directory {walkEntries : Searching Unit} (h : scope.files.Plain)
    (he : scope.files.entry? l = some .directory)
    (hwalk : isHidden l.text = false → scope.isExcluded l.text = false → ∀ s, s.cancellation = .never →
      Ends walkEntries s fun _ s' => Progress scope offered s s' ∧ Closed scope s' l)
    (hs : s.cancellation = .never) :
    Ends (if (isHidden l.text || scope.isExcluded l.text) = true then pure ()
        else do if ← visit scope l.text then walkEntries) s fun _ s' =>
      Progress scope offered s s' ∧ Settled scope s' l := by
  by_cases hpassed : (isHidden l.text || scope.isExcluded l.text) = true
  · rw [if_pos hpassed]
    refine .pure ⟨.refl scope offered s, settled_of_directory he fun hvisible hkept => absurd hpassed ?_⟩
    rw [hvisible, hkept]
    exact Bool.false_ne_true
  · rw [if_neg hpassed]
    rw [Bool.or_eq_true, not_or, Bool.not_eq_true, Bool.not_eq_true] at hpassed
    refine (ends_enter h he (hwalk hpassed.1 hpassed.2) hs).mono fun _ s' ⟨hp, hvisited⟩ => ?_
    exact ⟨hp, settled_of_directory he fun _ _ => hvisited⟩

/-- One entry below a root is dealt with. The induction is on the bound, which the depth of the entries keeps
from running out. -/
lemma ends_walkFrom {fuel : Nat} (h : scope.files.Plain) (hroot : scope.files.entry? root = some .directory)
    (hdir : Entered scope root dir) (he : scope.files.entry? (dir ++ [name]) = some e)
    (hfuel : scope.files.entries.length < fuel + dir.length + 1) (hs : s.cancellation = .never) :
    Ends (walkFrom scope fuel root.text (Location.text (dir ++ [name]))) s fun _ s' =>
      Progress scope (Taken scope root) s s' ∧ Settled scope s' (dir ++ [name]) := by
  induction fuel generalizing dir name e s with
  | zero =>
    have hlength := h.length_le_entries he
    rw [List.length_append, List.length_singleton] at hlength
    omega
  | succ fuel ih =>
    have hbelow := hdir.text_ne h (h.named hroot) he
    refine (ends_check hs).bind fun _ s' hs' => ?_
    subst hs'
    simp only [hbelow, h.lstat_text he, Bool.true_and]
    cases e with
    | link target => exact absurd he (h.unlinked _ target)
    | file data => exact ends_file he (fun hvisible hwanted => .mk hdir he hvisible hwanted) s'
    | directory =>
      refine ends_directory h he (fun hvisible hkept s hs => ?_) hs
      have hentered : Entered scope root (dir ++ [name]) := .child hdir he hvisible hkept
      have hdeep : scope.files.entries.length < fuel + (dir ++ [name]).length + 1 := by
        rw [List.length_append, List.length_singleton]
        omega
      exact ends_entries fuel h he (fun name e he' s hs => ih hentered he' hdeep hs) hs

/-- A walk marks its root, and closes whatever directory it marks. -/
lemma ends_walk (h : scope.files.Plain) (hroot : scope.files.entry? root = some .directory)
    (hs : s.cancellation = .never) :
    Ends (walk scope root.text) s fun _ s' =>
      Progress scope (Taken scope root) s s' ∧ root.text ∈ s'.visited := by
  refine ends_enter h hroot (fun s hs => Ends.adapt ?_ _) hs
  rw [show depthBound scope.files = 2 * scope.files.entries.length + 2 + 1 from rfl]
  refine (ends_check hs).bind fun _ s' hs' => ?_
  subst hs'
  have hentries := ends_entries (2 * scope.files.entries.length + 2) h hroot
    (fun name e he s hs => ends_walkFrom h hroot .root he (by omega) hs) hs
  simpa only [bne_self_eq_false, h.lstat_text hroot, Bool.false_and, Bool.false_eq_true, if_false, pure_bind,
    if_true] using hentries

end
end LosslessTree.Discovery
