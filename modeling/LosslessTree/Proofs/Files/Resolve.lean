import LosslessTree.Files.Access
import Mathlib.Data.List.Induction
import Mathlib.Tactic.Common

/-! What finding a path depends on. Files that are written, and one that comes and goes where nothing else
is, leave all other paths where they lead. -/
namespace LosslessTree

/-- Entries that make no difference to where paths lead. -/
inductive Entry.Alike : Entry → Entry → Prop
  | same (e : Entry) : Alike e e
  | file (data data' : FileData) : Alike (.file data) (.file data')

namespace FileSystem

variable {fs fs' : FileSystem} {l k m here dir : Location} {e : Entry} {name : Bytes} {todo : List Bytes}
  {follow : Bool} {links : Nat}

@[simp] lemma entry?_nil (fs : FileSystem) : fs.entry? [] = some .directory := rfl

lemma entry?_of_ne_nil (fs : FileSystem) (hk : k ≠ []) : fs.entry? k = fs.entries.lookup k := by
  simp [ entry?, hk]

lemma lookup_cons_ite (k' : Location) (e : Entry) (rest : List (Location × Entry)) :
    ((k', e) :: rest).lookup k = if k = k' then some e else rest.lookup k := by
  by_cases hk : k = k'
  · simp [hk]
  · have hfalse : (k == k') = false := by simpa using hk
    rw [List.lookup_cons, hfalse, if_neg hk]

lemma lookup_replaced (entries : List (Location × Entry)) :
    (entries.map fun (k, old) => (k, if k = l then e else old)).lookup k =
      if k = l then (entries.lookup l).map fun _ => e else entries.lookup k := by
  induction entries with
  | nil => simp
  | cons first rest ih =>
    obtain ⟨k', old⟩ := first
    rw [List.map_cons, lookup_cons_ite, lookup_cons_ite, lookup_cons_ite, ih]
    by_cases hk : k = k'
    · subst hk
      by_cases hl : k = l
      · simp [hl]
      · simp [hl]
    · by_cases hl : k = l
      · subst hl
        simp [hk]
      · simp [hk, hl]

lemma lookup_filtered (entries : List (Location × Entry)) :
    (entries.filter fun (k, _) => !l.isPrefixOf k).lookup k = if l <+: k then none else entries.lookup k := by
  induction entries with
  | nil => simp
  | cons first rest ih =>
    obtain ⟨k', old⟩ := first
    by_cases hgone : l <+: k'
    · rw [List.filter_cons_of_neg (by simpa using hgone), ih, lookup_cons_ite]
      by_cases hk : k = k'
      · rw [if_pos (hk ▸ hgone), if_pos (hk ▸ hgone)]
      · rw [if_neg hk]
    · rw [List.filter_cons_of_pos (by simpa [← List.isPrefixOf_iff_prefix] using hgone), lookup_cons_ite,
        lookup_cons_ite, ih]
      by_cases hk : k = k'
      · rw [if_pos hk, if_pos hk, if_neg (hk ▸ hgone)]
      · rw [if_neg hk, if_neg hk]

/-- What is put somewhere is there, and nothing else changes. -/
lemma entry?_set (fs : FileSystem) (hl : l ≠ []) (e : Entry) (k : Location) :
    entry? (fs.set l e) k = if k = l then some e else fs.entry? k := by
  by_cases hk : k = []
  · subst hk
    simp [hl.symm]
  rw [entry?_of_ne_nil _ hk, entry?_of_ne_nil _ hk, set]
  split
  · next hsome =>
    obtain ⟨old, hold⟩ := Option.isSome_iff_exists.mp hsome
    rw [lookup_replaced, hold]
    rfl
  · next hnone =>
    have hlookup : fs.entries.lookup l = none := Option.not_isSome_iff_eq_none.mp hnone
    rw [List.lookup_append, lookup_cons_ite, List.lookup_nil]
    split_ifs with hkl
    · rw [hkl, hlookup, Option.none_or]
    · rw [Option.or_none]

lemma workDir_set (fs : FileSystem) (l : Location) (e : Entry) : (fs.set l e).workDir = fs.workDir := by
  unfold set
  split <;> rfl

lemma workDir_store (fs : FileSystem) (l : Location) (content : Bytes) (mode : Nat) :
    (fs.store l content mode).workDir = fs.workDir :=
  workDir_set fs l _

lemma entry?_store (fs : FileSystem) (hl : l ≠ []) (content : Bytes) (mode : Nat) (k : Location) :
    entry? (fs.store l content mode) k =
      if k = l then some (.file ⟨content, mode, .own fs.writes⟩) else fs.entry? k :=
  entry?_set fs hl _ k

/-- What is erased is gone with all below it, and nothing else changes. -/
lemma entry?_erase (fs : FileSystem) (hl : l ≠ []) (k : Location) :
    entry? (fs.erase l) k = if l <+: k then none else fs.entry? k := by
  by_cases hk : k = []
  · subst hk
    simp [hl]
  rw [entry?_of_ne_nil _ hk, entry?_of_ne_nil _ hk]
  exact lookup_filtered fs.entries

/-- A tree: all that is there is in a directory, and the working directory is one unless it is gone. -/
structure Sound (fs : FileSystem) : Prop where
  parent : ∀ k e, fs.entry? k = some e → fs.entry? k.dropLast = some .directory
  workDir : ∀ e, fs.entry? fs.workDir = some e → e = .directory

/-- What is there is below directories only. -/
lemma Sound.above (h : fs.Sound) (habove : l <+: k) (hne : l ≠ k) (hk : fs.entry? k = some e) :
    fs.entry? l = some .directory := by
  obtain ⟨below, rfl⟩ := habove
  induction below using List.reverseRecOn generalizing e with
  | nil => exact absurd (List.append_nil l).symm hne
  | append_singleton below name ih =>
    have hparent := h.parent _ _ hk
    rw [← List.append_assoc, List.dropLast_concat] at hparent
    by_cases hbelow : below = []
    · rw [hbelow, List.append_nil] at hparent
      exact hparent
    · exact ih (by simpa using hbelow) hparent

lemma Sound.not_isDirectory (h : fs.Sound) {data : FileData} (hl : fs.entry? l = some (.file data)) :
    fs.isDirectory l = false := by
  have hwork : l ≠ fs.workDir := by
    rintro rfl
    cases h.workDir _ hl
  simp [isDirectory, hwork, hl, Entry.isDirectory]

/-- A name that is looked up. -/
structure Ordinary (name : Bytes) : Prop where
  ne_nil : name ≠ []
  ne_here : name ≠ [0x2E]
  ne_up : name ≠ [0x2E, 0x2E]
  length_le : name.length ≤ maxNameLength

lemma Ordinary.of_tests (hplain : ¬ (name.isEmpty || name == [0x2E]) = true) (hup : ¬ (name == [0x2E, 0x2E]) = true)
    (hlen : ¬ maxNameLength < name.length) : Ordinary name := by
  simp only [Bool.or_eq_true, List.isEmpty_iff, beq_iff_eq, not_or] at hplain hup
  exact ⟨hplain.1, hplain.2, hup, Nat.not_lt.mp hlen⟩

/-- The ways in which names lead somewhere from a location. -/
inductive Leads (fs : FileSystem) (follow : Bool) : Nat → Location → List Bytes → Place → Prop
  | done {links : Nat} {here : Location} : Leads fs follow links here [] (.found here)
  | stay {links : Nat} {here : Location} {name : Bytes} {rest : List Bytes} {place : Place}
      (hdir : fs.isDirectory here = true) (hname : name = [] ∨ name = [0x2E])
      (hrest : Leads fs follow links here rest place) : Leads fs follow links here (name :: rest) place
  | up {links : Nat} {here : Location} {rest : List Bytes} {place : Place}
      (hdir : fs.isDirectory here = true)
      (hrest : Leads fs follow links here.dropLast rest place) :
      Leads fs follow links here ([0x2E, 0x2E] :: rest) place
  | absent {links : Nat} {here : Location} {name : Bytes}
      (hdir : fs.isDirectory here = true) (hname : Ordinary name)
      (hnone : fs.entry? (here ++ [name]) = none) : Leads fs follow links here [name] (.absent here name)
  | stop {links : Nat} {here : Location} {name target : Bytes}
      (hdir : fs.isDirectory here = true) (hname : Ordinary name)
      (hlink : fs.entry? (here ++ [name]) = some (.link target)) (hstop : follow = false) :
      Leads fs follow links here [name] (.found (here ++ [name]))
  | through {links : Nat} {here : Location} {name : Bytes} {rest : List Bytes} {target : Bytes} {place : Place}
      (hdir : fs.isDirectory here = true) (hname : Ordinary name)
      (hlink : fs.entry? (here ++ [name]) = some (.link target)) (hgo : rest ≠ [] ∨ follow = true)
      (htarget : target ≠ [])
      (hrest : Leads fs follow links (if Path.isAbsolute target then [] else here)
        (Bytes.split Path.separator target ++ rest) place) :
      Leads fs follow (links + 1) here (name :: rest) place
  | enter {links : Nat} {here : Location} {name : Bytes} {rest : List Bytes} {e : Entry} {place : Place}
      (hdir : fs.isDirectory here = true) (hname : Ordinary name)
      (hentry : fs.entry? (here ++ [name]) = some e) (hnot : ∀ target, e ≠ .link target)
      (hrest : Leads fs follow links (here ++ [name]) rest place) :
      Leads fs follow links here (name :: rest) place

/-- How names are resolved behind a link. -/
def onward (fs : FileSystem) (follow : Bool) :
    (links : Nat) → Option (Location → List Bytes → Except AccessFault Place)
  | 0 => none
  | left + 1 => some (fs.resolve follow left)

lemma resolve_eq (links : Nat) (here : Location) (todo : List Bytes) :
    fs.resolve follow links here todo = fs.resolveNames follow (fs.onward follow links) here todo := by
  cases links <;> rfl

lemma leads_of_resolveNames {place : Place}
    (ih : ∀ left, links = left + 1 → ∀ {here todo place},
      fs.resolve follow left here todo = .ok place → fs.Leads follow left here todo place)
    (h : fs.resolveNames follow (fs.onward follow links) here todo = .ok place) :
    fs.Leads follow links here todo place := by
  fun_induction FileSystem.resolveNames fs follow (fs.onward follow links) here todo with
  | case1 => exact Except.ok.inj h ▸ .done
  | case3 here name rest hdir hname ihrest =>
    exact .stay (by simpa using hdir) (by simpa using hname) (ihrest h)
  | case4 here name rest hdir _ hname ihrest =>
    obtain rfl : name = [0x2E, 0x2E] := by simpa using hname
    exact .up (by simpa using hdir) (ihrest h)
  | case6 here name rest hdir hplain hup hlen hnone hrest =>
    obtain rfl : rest = [] := by simpa using hrest
    exact Except.ok.inj h ▸ .absent (by simpa using hdir) (.of_tests hplain hup hlen) hnone
  | case8 here name rest hdir hplain hup hlen target hlink hrest =>
    obtain ⟨rfl, hstop⟩ : rest = [] ∧ follow = false := by simpa using hrest
    exact Except.ok.inj h ▸ .stop (by simpa using hdir) (.of_tests hplain hup hlen) hlink hstop
  | case11 here name rest hdir hplain hup hlen target hlink hgo htarget go hsome =>
    cases links with
    | zero => cases hsome
    | succ left =>
      cases hsome
      refine .through (by simpa using hdir) (.of_tests hplain hup hlen) hlink ?_ (by simpa using htarget) (ih left rfl h)
      simpa [Decidable.imp_iff_not_or] using hgo
  | case12 here name rest hdir hplain hup hlen e hnot hentry ihrest =>
    exact .enter (by simpa using hdir) (.of_tests hplain hup hlen) hentry (fun t ht => hnot t ht) (ihrest h)
  | _ => cases h

lemma leads_of_resolve {place : Place} (h : fs.resolve follow links here todo = .ok place) :
    fs.Leads follow links here todo place := by
  induction links generalizing here todo place with
  | zero => exact leads_of_resolveNames nofun h
  | succ links ih =>
    refine leads_of_resolveNames (fun left hleft => ?_) h
    cases hleft
    exact ih

lemma resolve_of_leads {place : Place} (h : fs.Leads follow links here todo place) :
    fs.resolve follow links here todo = .ok place := by
  induction h with
  | done => rw [resolve_eq, resolveNames]
  | stay hdir hname hrest ih =>
    rw [resolve_eq] at ih ⊢
    rw [resolveNames]
    rcases hname with rfl | rfl <;> simpa [hdir] using ih
  | up hdir hrest ih =>
    rw [resolve_eq] at ih ⊢
    rw [resolveNames]
    simpa [hdir] using ih
  | absent hdir hname hnone =>
    rw [resolve_eq, resolveNames]
    simp [hdir, hname.ne_nil, hname.ne_here, hname.ne_up, hname.length_le, hnone]
  | stop hdir hname hlink hstop =>
    rw [resolve_eq, resolveNames]
    simp [hdir, hname.ne_nil, hname.ne_here, hname.ne_up, hname.length_le, hlink, hstop]
  | @through links here name rest target place hdir hname hlink hgo htarget hrest ih =>
    rw [resolve_eq, resolveNames]
    have hlen : ¬ maxNameLength < name.length := Nat.not_lt.mpr hname.length_le
    have hon : ¬ (rest = [] ∧ follow = false) := by
      rintro ⟨hnil, hstop⟩
      rcases hgo with hgo | hgo
      · exact hgo hnil
      · cases hgo.symm.trans hstop
    simp [hdir, hname.ne_nil, hname.ne_here, hname.ne_up, hlen, hlink, hon, htarget, onward, ih]
  | enter hdir hname hentry hnot hrest ih =>
    rw [resolve_eq] at ih ⊢
    rw [resolveNames]
    simp [hdir, hname.ne_nil, hname.ne_here, hname.ne_up, hname.length_le, hentry, ih]

/-- Nothing is where a name is said to be missing. -/
lemma Leads.missing {place : Place} (h : fs.Leads follow links here todo place)
    (hplace : place = .absent dir name) : fs.entry? (dir ++ [name]) = none := by
  induction h with
  | done | stop => cases hplace
  | absent hdir hname hnone =>
    cases hplace
    exact hnone
  | stay _ _ _ ih | up _ _ ih | through _ _ _ _ _ _ ih | enter _ _ _ _ _ ih => exact ih hplace

/-- A path with a slash at its end leads to a directory if it leads anywhere. -/
lemma Leads.isDirectory {place : Place} (h : fs.Leads follow links here todo place)
    (hlast : todo.getLast? = some []) (hplace : place = .found m) : fs.isDirectory m = true := by
  -- What is left to look up keeps its empty end until that is all that is left.
  have hcons {name : Bytes} {rest : List Bytes} (h : (name :: rest).getLast? = some []) :
      rest = [] ∧ name = [] ∨ rest.getLast? = some [] := by
    cases rest with
    | nil => exact .inl ⟨rfl, by simpa using h⟩
    | cons next rest => exact .inr (by rwa [List.getLast?_cons_cons] at h)
  induction h with
  | done => cases hlast
  | stay hdir hname hrest ih =>
    rcases hcons hlast with ⟨rfl, -⟩ | hlast
    · subst hplace
      cases hrest
      exact hdir
    · exact ih hlast hplace
  | up hdir hrest ih =>
    rcases hcons hlast with ⟨-, hname⟩ | hlast
    · cases hname
    · exact ih hlast hplace
  | absent hdir hname hnone => cases hplace
  | stop hdir hname hlink hstop =>
    rcases hcons hlast with ⟨-, hnil⟩ | hlast
    · exact absurd hnil hname.ne_nil
    · cases hlast
  | through hdir hname hlink hgo htarget hrest ih =>
    rcases hcons hlast with ⟨-, hnil⟩ | hlast
    · exact absurd hnil hname.ne_nil
    · exact ih (by rw [List.getLast?_append, hlast, Option.some_or]) hplace
  | enter hdir hname hentry hnot hrest ih =>
    rcases hcons hlast with ⟨-, hnil⟩ | hlast
    · exact absurd hnil hname.ne_nil
    · exact ih hlast hplace

/-- Following a link at the end makes no difference where there is none. -/
lemma Leads.followed {place : Place} (h : fs.Leads false links here todo place)
    (hplace : ∀ m target, place = .found m → fs.entry? m ≠ some (.link target)) :
    fs.Leads true links here todo place := by
  induction h with
  | done => exact .done
  | stay hdir hname hrest ih => exact .stay hdir hname (ih hplace)
  | up hdir hrest ih => exact .up hdir (ih hplace)
  | absent hdir hname hnone => exact .absent hdir hname hnone
  | stop hdir hname hlink hstop => exact absurd hlink (hplace _ _ rfl)
  | through hdir hname hlink hgo htarget hrest ih => exact .through hdir hname hlink (.inr rfl) htarget (ih hplace)
  | enter hdir hname hentry hnot hrest ih => exact .enter hdir hname hentry hnot (ih hplace)

/-- A path that leads somewhere when a link at its end is followed also does when it is not. -/
lemma Leads.unfollowed {place : Place} (h : fs.Leads true links here todo place) :
    ∃ place, fs.Leads false links here todo place := by
  induction h with
  | done => exact ⟨_, .done⟩
  | stay hdir hname hrest ih => exact ih.imp fun _ => .stay hdir hname
  | up hdir hrest ih => exact ih.imp fun _ => .up hdir
  | absent hdir hname hnone => exact ⟨_, .absent hdir hname hnone⟩
  | stop hdir hname hlink hstop => cases hstop
  | @through links here name rest target place hdir hname hlink hgo htarget hrest ih =>
    cases rest with
    | nil => exact ⟨_, .stop hdir hname hlink rfl⟩
    | cons next rest => exact ih.imp fun _ => .through hdir hname hlink (.inl (List.cons_ne_nil _ _)) htarget
  | enter hdir hname hentry hnot hrest ih => exact ih.imp fun _ => .enter hdir hname hentry hnot

/-- Whatever there is in one file system, the other has too, as far as finding paths goes. -/
structure Compatible (fs fs' : FileSystem) : Prop where
  workDir : fs'.workDir = fs.workDir
  isDirectory : ∀ k, fs'.isDirectory k = fs.isDirectory k
  entry : ∀ k e, fs.entry? k = some e → ∃ e', fs'.entry? k = some e' ∧ e.Alike e'

/-- The place as it is once something may have been put there. -/
def atPlace (fs : FileSystem) : Place → Place
  | .found l => .found l
  | .absent dir name => if (fs.entry? (dir ++ [name])).isSome then .found (dir ++ [name]) else .absent dir name

/-- Paths still lead where they have led, unless a link was put where nothing was. -/
lemma Compatible.leads {place : Place} (hc : Compatible fs fs') (h : fs.Leads follow links here todo place)
    (hplace : ∀ dir name target, place = .absent dir name → fs'.entry? (dir ++ [name]) ≠ some (.link target)) :
    fs'.Leads follow links here todo (fs'.atPlace place) := by
  induction h with
  | done => exact .done
  | stay hdir hname hrest ih => exact .stay (hc.isDirectory _ ▸ hdir) hname (ih hplace)
  | up hdir hrest ih => exact .up (hc.isDirectory _ ▸ hdir) (ih hplace)
  | @absent links here name hdir hname hnone =>
    cases hentry : fs'.entry? (here ++ [name]) with
    | none =>
      rw [atPlace, hentry]
      exact .absent (hc.isDirectory _ ▸ hdir) hname hentry
    | some e =>
      rw [atPlace, hentry]
      exact .enter (hc.isDirectory _ ▸ hdir) hname hentry (fun t ht => hplace _ _ t rfl (ht ▸ hentry)) .done
  | @stop links here name target hdir hname hlink hstop =>
    obtain ⟨e', he', halike⟩ := hc.entry _ _ hlink
    cases halike
    exact .stop (hc.isDirectory _ ▸ hdir) hname he' hstop
  | through hdir hname hlink hgo htarget hrest ih =>
    obtain ⟨e', he', halike⟩ := hc.entry _ _ hlink
    cases halike
    exact .through (hc.isDirectory _ ▸ hdir) hname he' hgo htarget (ih hplace)
  | enter hdir hname hentry hnot hrest ih =>
    obtain ⟨e', he', halike⟩ := hc.entry _ _ hentry
    refine .enter (hc.isDirectory _ ▸ hdir) hname he' ?_ (ih hplace)
    cases halike with
    | same => exact hnot
    | file data data' => nofun

lemma locateWithin_eq_ok_iff {path : Bytes} {place : Place} : fs.locateWithin links follow path = .ok place ↔
    (path ≠ [] ∧ 0 ∉ path ∧ path.length ≤ maxPathLength) ∧
      fs.Leads follow links (if Path.isAbsolute path then [] else fs.workDir)
        (Bytes.split Path.separator path) place := by
  have hresolve {here : Location} {todo : List Bytes} :
      fs.resolve follow links here todo = .ok place ↔ fs.Leads follow links here todo place :=
    ⟨leads_of_resolve, resolve_of_leads⟩
  unfold locateWithin
  by_cases hempty : path = []
  · simp [hempty]
  by_cases hzero : 0 ∈ path
  · simp [hempty, hzero]
  by_cases hlong : maxPathLength < path.length
  · simp [hempty, hzero, hlong, Nat.not_le.mpr hlong]
  · simp [hempty, hzero, hlong, Nat.not_lt.mp hlong, hresolve]

lemma locate_eq_ok_iff {path : Bytes} {place : Place} : fs.locate follow path = .ok place ↔
    (path ≠ [] ∧ 0 ∉ path ∧ path.length ≤ maxPathLength) ∧
      fs.Leads follow maxLinks (if Path.isAbsolute path then [] else fs.workDir)
        (Bytes.split Path.separator path) place :=
  locateWithin_eq_ok_iff

lemma entry?_of_locate_absent {path : Bytes} (h : fs.locate follow path = .ok (.absent dir name)) :
    fs.entry? (dir ++ [name]) = none :=
  (locate_eq_ok_iff.mp h).2.missing rfl

lemma entryAt_of_locate {path : Bytes} (h : fs.locate follow path = .ok (.found l)) (he : fs.entry? l = some e)
    (action : Bytes) : fs.entryAt action follow path = .ok e := by
  simp only [entryAt, h, he, Option.getD_some]

lemma Compatible.locate {path : Bytes} {place : Place} (hc : Compatible fs fs')
    (h : fs.locate follow path = .ok place)
    (hplace : ∀ dir name target, place = .absent dir name → fs'.entry? (dir ++ [name]) ≠ some (.link target)) :
    fs'.locate follow path = .ok (fs'.atPlace place) := by
  obtain ⟨hpath, hleads⟩ := locate_eq_ok_iff.mp h
  exact locate_eq_ok_iff.mpr ⟨hpath, hc.workDir ▸ hc.leads hleads hplace⟩

lemma Compatible.locate_found {path : Bytes} (hc : Compatible fs fs') (h : fs.locate follow path = .ok (.found l)) :
    fs'.locate follow path = .ok (.found l) :=
  hc.locate h nofun

lemma locate_followed {path : Bytes} {place : Place} (h : fs.locate false path = .ok place)
    (hplace : ∀ m target, place = .found m → fs.entry? m ≠ some (.link target)) :
    fs.locate true path = .ok place := by
  obtain ⟨hpath, hleads⟩ := locate_eq_ok_iff.mp h
  exact locate_eq_ok_iff.mpr ⟨hpath, hleads.followed hplace⟩

lemma locate_unfollowed {path : Bytes} {place : Place} (h : fs.locate true path = .ok place) :
    ∃ place, fs.locate false path = .ok place := by
  obtain ⟨hpath, hleads⟩ := locate_eq_ok_iff.mp h
  obtain ⟨place, hleads⟩ := hleads.unfollowed
  exact ⟨place, locate_eq_ok_iff.mpr ⟨hpath, hleads⟩⟩

end FileSystem
end LosslessTree
