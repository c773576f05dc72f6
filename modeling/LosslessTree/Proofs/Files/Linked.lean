import LosslessTree.Proofs.Files.Plain

/-! File systems with links. A path may lead to a location through links; the text of the location leads there
without any, so it can stand for all paths that lead there. -/
namespace LosslessTree

namespace FileSystem

open Location

/-- A tree of files, directories and links, whose names are such as the system takes. -/
structure Proper (fs : FileSystem) : Prop extends Sound fs where
  legal : ∀ l e, fs.entry? l = some e → ∀ name ∈ l, Legal name

lemma proper_of_entries {fs : FileSystem}
    (h : ∀ p ∈ fs.entries, fs.entry? p.1.dropLast = some .directory ∧ ∀ name ∈ p.1, Legal name)
    (hwork : fs.entry? fs.workDir = some .directory) : fs.Proper := by
  have hplaced := forall_entry? (P := fun l _ => fs.entry? l.dropLast = some .directory ∧ ∀ name ∈ l, Legal name)
    ⟨rfl, List.forall_mem_nil _⟩ h
  exact {
    parent := fun l e he => (hplaced l e he).1
    workDir := fun e he => Option.some.inj (he.symm.trans hwork)
    legal := fun l e he => (hplaced l e he).2 }

variable {fs : FileSystem} {l mid here : Location} {e : Entry} {name path target : Bytes} {names todo rest : List Bytes}
  {follow : Bool} {links links' : Nat} {place place' : Place}

namespace Leads

/-- Links that need not be followed do no harm. -/
lemma more (h : fs.Leads follow links here todo place) (hle : links ≤ links') :
    fs.Leads follow links' here todo place := by
  induction h generalizing links' with
  | done => exact .done
  | stay hdir hname hrest ih => exact .stay hdir hname (ih hle)
  | up hdir hrest ih => exact .up hdir (ih hle)
  | absent hdir hname hnone => exact .absent hdir hname hnone
  | stop hdir hname hlink hstop => exact .stop hdir hname hlink hstop
  | through hdir hname hlink hgo htarget hrest ih =>
    obtain ⟨left, rfl⟩ := Nat.exists_eq_add_of_lt hle
    exact .through hdir hname hlink hgo htarget (ih (Nat.le_add_right _ _))
  | enter hdir hname hentry hnot hrest ih => exact .enter hdir hname hentry hnot (ih hle)

/-- From where a path leads one can go on; the links on both parts are counted together. -/
lemma append (h : fs.Leads true links here todo place) (hplace : place = .found mid)
    (hrest : fs.Leads follow links' mid rest place') (hne : rest ≠ []) :
    fs.Leads follow (links + links') here (todo ++ rest) place' := by
  induction h with
  | @done links here =>
    cases hplace
    exact hrest.more (Nat.le_add_left _ _)
  | stay hdir hname _ ih => exact .stay hdir hname (ih hplace)
  | up hdir _ ih => exact .up hdir (ih hplace)
  | absent hdir hname hnone => cases hplace
  | stop hdir hname hlink hstop => cases hstop
  | @through links here name more target place hdir hname hlink hgo htarget _ ih =>
    rw [Nat.add_right_comm, List.cons_append]
    refine .through hdir hname hlink (.inl (List.append_ne_nil_of_right_ne_nil _ hne)) htarget ?_
    rw [← List.append_assoc]
    exact ih hplace
  | enter hdir hname hentry hnot _ ih => exact .enter hdir hname hentry hnot (ih hplace)

/-- What a path leads to from an entry is an entry, and no link if links are followed. -/
lemma there (h : fs.Leads follow links here todo place) (hsound : fs.Sound)
    (hhere : ∃ e, fs.entry? here = some e ∧ e.isLink = false) (hplace : place = .found l) :
    ∃ e, fs.entry? l = some e ∧ (follow = true → e.isLink = false) := by
  induction h with
  | done =>
    cases hplace
    exact hhere.imp fun _ he => ⟨he.1, fun _ => he.2⟩
  | stay hdir hname hrest ih => exact ih hhere hplace
  | up hdir hrest ih =>
    obtain ⟨e, he, -⟩ := hhere
    exact ih ⟨.directory, hsound.parent _ e he, rfl⟩ hplace
  | absent hdir hname hnone => cases hplace
  | stop hdir hname hlink hstop =>
    cases hplace
    exact ⟨_, hlink, fun hfollow => nomatch hfollow.symm.trans hstop⟩
  | @through links here name rest target place hdir hname hlink hgo htarget hrest ih =>
    refine ih ?_ hplace
    split_ifs
    · exact ⟨.directory, entry?_nil fs, rfl⟩
    · exact hhere
  | @enter links here name rest e place hdir hname hentry hnot hrest ih =>
    refine ih ⟨e, hentry, ?_⟩ hplace
    cases e with
    | link target => exact absurd rfl (hnot target)
    | file data => rfl
    | directory => rfl

end Leads

namespace Proper

lemma named (h : fs.Proper) (he : fs.entry? l = some e) : l.Named :=
  fun name hname => (h.legal l e he name hname).toIsName

/-- The way to a directory by its own names needs no links, and is the only one by these names. -/
lemma leads_append_iff (h : fs.Proper) (he : fs.entry? (here ++ names) = some .directory) :
    fs.Leads follow links here (names ++ rest) place ↔ fs.Leads follow links (here ++ names) rest place := by
  induction names generalizing here with
  | nil => rw [List.nil_append, List.append_nil]
  | cons name names ih =>
    have hname : Legal name := h.legal _ _ he name (by simp)
    have hhere : fs.entry? here = some .directory := h.toSound.above (List.prefix_append _ _) (by simp) he
    have hstep : here ++ name :: names = here ++ [name] ++ names := by simp
    rw [hstep] at he ⊢
    have hentry : fs.entry? (here ++ [name]) = some .directory := by
      by_cases hnames : names = []
      · rwa [hnames, List.append_nil] at he
      · exact h.toSound.above (List.prefix_append _ _) (by simpa using hnames) he
    rw [← ih he, List.cons_append]
    generalize names ++ rest = todo
    refine ⟨fun hleads => ?_, .enter (isDirectory_of_there hhere) hname.ordinary hentry nofun⟩
    cases hleads with
    | stay hdir hskip hrest => exact (hskip.elim hname.ne_nil hname.ne_here).elim
    | up hdir hrest => exact absurd rfl hname.ne_up
    | absent hdir hname hnone => exact nomatch hentry.symm.trans hnone
    | stop hdir hname hlink hstop => exact nomatch hentry.symm.trans hlink
    | through hdir hname hlink hgo htarget hrest => exact nomatch hentry.symm.trans hlink
    | enter hdir hname hentry' hnot hrest => exact hrest

lemma leads_names_iff (h : fs.Proper) (he : fs.entry? names = some .directory) :
    fs.Leads follow links [] (names ++ rest) place ↔ fs.Leads follow links names rest place :=
  h.leads_append_iff he

/-- The last name on the way to something other than a link that is followed. -/
lemma leads_last (h : fs.Proper) (he : fs.entry? (here ++ [name]) = some e) (hlink : follow = true → e.isLink = false) :
    fs.Leads follow links here [name] (.found (here ++ [name])) := by
  have hdir : fs.isDirectory here = true := isDirectory_of_there (by simpa using h.parent _ e he)
  have hname : Ordinary name := (h.legal _ e he name (by simp)).ordinary
  cases e with
  | link target => exact .stop hdir hname he (by simpa [Entry.isLink] using hlink)
  | file data => exact .enter hdir hname he nofun .done
  | directory => exact .enter hdir hname he nofun .done

/-- What is no link is where its names lead. -/
lemma leads_self (h : fs.Proper) (he : fs.entry? l = some e) (hlink : follow = true → e.isLink = false) :
    fs.Leads follow links [] l (.found l) := by
  obtain rfl | ⟨dir, name, rfl⟩ := List.eq_nil_or_concat' l
  · exact .done
  · have hdir : fs.entry? dir = some .directory := by simpa using h.parent _ e he
    rw [h.leads_names_iff hdir]
    exact h.leads_last he hlink

end Proper

/-- The text of a location leads where its names lead, if it can be asked for. -/
lemma locateWithin_text_iff (hl : l.Named) : fs.locateWithin links follow l.text = .ok place ↔
    (0 ∉ l.text ∧ l.text.length ≤ maxPathLength) ∧ fs.Leads follow links [] l place := by
  rw [locateWithin_eq_ok_iff, Location.isAbsolute_text, if_pos rfl, Plain.leads_split_iff hl]
  simp [text_ne_nil]

/-- What an absolute path leads to is there, and no link if links are followed. -/
lemma Proper.there (h : fs.Proper) (hpath : Path.isAbsolute path = true)
    (hlocate : fs.locateWithin links follow path = .ok (.found l)) :
    ∃ e, fs.entry? l = some e ∧ (follow = true → e.isLink = false) := by
  have hleads := (locateWithin_eq_ok_iff.mp hlocate).2
  rw [if_pos hpath] at hleads
  exact hleads.there h.toSound ⟨.directory, entry?_nil fs, rfl⟩ rfl

lemma locateWithin_more (h : fs.locateWithin links follow path = .ok place) (hle : links ≤ links') :
    fs.locateWithin links' follow path = .ok place := by
  obtain ⟨hpath, hleads⟩ := locateWithin_eq_ok_iff.mp h
  exact locateWithin_eq_ok_iff.mpr ⟨hpath, hleads.more hle⟩

lemma canonical?_eq_some_iff : fs.canonical? path = some target ↔
    ∃ l, fs.locateWithin maxCanonicalLinks true path = .ok (.found l) ∧ l.text = target := by
  unfold canonical?
  split
  next l hlocate => simp [hlocate]
  next hlocate =>
    simp only [reduceCtorEq, false_iff, not_exists, not_and]
    exact fun l hl => absurd hl (hlocate l)

/-- A path and the location it leads to have one key. -/
lemma canonical?_of_locate (h : fs.locate true path = .ok (.found l)) : fs.canonical? path = some l.text :=
  canonical?_eq_some_iff.mpr ⟨l, locateWithin_more h (by decide), rfl⟩

namespace Proper

/-- What there is at a path, where it stands. -/
lemma entryAt_eq_ok (h : fs.Proper) (hpath : Path.isAbsolute path = true) {action : Bytes}
    (he : fs.entryAt action follow path = .ok e) : ∃ l, fs.locate follow path = .ok (.found l) ∧ fs.entry? l = some e := by
  unfold entryAt at he
  split at he
  next l hlocate =>
    obtain ⟨e', he', -⟩ := h.there hpath hlocate
    rw [he', Option.getD_some] at he
    exact ⟨l, hlocate, he' ▸ congrArg some (Except.ok.inj he)⟩
  next => cases he
  next => cases he

lemma exists_of_stat (h : fs.Proper) (hpath : Path.isAbsolute path = true) (he : fs.stat path = .ok e) :
    ∃ l, fs.locate true path = .ok (.found l) ∧ fs.entry? l = some e :=
  h.entryAt_eq_ok hpath he

/-- It makes no difference whether links at the end are followed if there is none. -/
lemma exists_of_lstat (h : fs.Proper) (hpath : Path.isAbsolute path = true) (he : fs.lstat path = .ok e)
    (hlink : e.isLink = false) : ∃ l, fs.locate true path = .ok (.found l) ∧ fs.entry? l = some e := by
  obtain ⟨l, hlocate, hentry⟩ := h.entryAt_eq_ok hpath he
  refine ⟨l, locate_followed hlocate fun m target hm ht => ?_, hentry⟩
  cases hm
  rw [hentry] at ht
  cases ht
  cases hlink

/-- Where a path leads to a directory, a directory stands or a link to one. -/
lemma lstat_of_stat (h : fs.Proper) (hpath : Path.isAbsolute path = true) (hstat : fs.stat path = .ok .directory) :
    fs.lstat path = .ok .directory ∨ ∃ target, fs.lstat path = .ok (.link target) := by
  obtain ⟨l, hlocate, hl⟩ := h.exists_of_stat hpath hstat
  obtain ⟨place, hplace⟩ := locate_unfollowed hlocate
  have hother (hnot : ∀ m target, place = .found m → fs.entry? m ≠ some (.link target)) : place = .found l :=
    Except.ok.inj ((locate_followed hplace hnot).symm.trans hlocate)
  cases place with
  | absent dir name => cases hother nofun
  | found m =>
    obtain ⟨e, he, -⟩ := h.there hpath hplace
    have hlstat : fs.lstat path = .ok e := entryAt_of_locate hplace he "lstat"
    by_cases hlink : ∃ target, e = .link target
    · obtain ⟨target, rfl⟩ := hlink
      exact .inr ⟨target, hlstat⟩
    · cases hother fun m' target hm ht => by
        cases hm
        exact hlink ⟨target, Option.some.inj (he.symm.trans ht)⟩
      cases he.symm.trans hl
      exact .inl hlstat

/-- The text of a location that is no link leads there. -/
lemma locate_text (h : fs.Proper) (he : fs.entry? l = some e) (hlink : follow = true → e.isLink = false)
    (hshort : l.text.length ≤ maxPathLength) : fs.locate follow l.text = .ok (.found l) := by
  refine (locateWithin_text_iff (h.named he)).mpr ⟨⟨fun hzero => ?_, hshort⟩, h.leads_self he hlink⟩
  rcases mem_text hzero with hsep | ⟨name, hname, hmem⟩
  · exact absurd hsep (by decide)
  · exact (h.legal l e he name hname).nonzero hmem

/-- The canonical form of a path is the text of where it leads, so it leads there itself. -/
lemma exists_of_canonical? (h : fs.Proper) (hpath : Path.isAbsolute path = true)
    (hcanonical : fs.canonical? path = some target) (hstat : fs.stat target = .ok e) :
    ∃ l, target = l.text ∧ fs.locate true target = .ok (.found l) ∧ fs.entry? l = some e := by
  obtain ⟨l, hlocate, rfl⟩ := canonical?_eq_some_iff.mp hcanonical
  obtain ⟨e', he', hlink⟩ := h.there hpath hlocate
  obtain ⟨m, hm, hentry⟩ := h.exists_of_stat (isAbsolute_text l) hstat
  have hshort : l.text.length ≤ maxPathLength := (locate_eq_ok_iff.mp hm).1.2.2
  have hself := h.locate_text he' hlink hshort
  obtain rfl : m = l := by simpa [hm] using hself
  exact ⟨m, rfl, hself, hentry⟩

section
variable {m dir next : Location}

/-- A path can be asked for if the path of its directory can, and it is not too long. -/
lemma not_mem_zero (h : fs.Proper) (hlocate : fs.locate true m.text = .ok (.found dir))
    (he : fs.entry? (dir ++ [name]) = some e) : 0 ∉ Location.text (m ++ [name]) := by
  refine fun hzero => (mem_text_concat hzero).elim (locate_eq_ok_iff.mp hlocate).1.2.1 ?_
  exact (h.legal _ e he name (by simp)).nonzero

lemma named_concat (h : fs.Proper) (hm : m.Named) (he : fs.entry? (dir ++ [name]) = some e) :
    Location.Named (m ++ [name]) :=
  hm.concat (h.legal _ e he name (by simp)).toIsName

/-- The entry of a name, by whatever path its directory is reached. -/
lemma locate_concat (h : fs.Proper) (hm : m.Named) (hlocate : fs.locate true m.text = .ok (.found dir))
    (he : fs.entry? (dir ++ [name]) = some e) (hlink : follow = true → e.isLink = false)
    (hshort : (Location.text (m ++ [name])).length ≤ maxPathLength) :
    fs.locate follow (Location.text (m ++ [name])) = .ok (.found (dir ++ [name])) := by
  refine (locateWithin_text_iff (h.named_concat hm he)).mpr ⟨⟨h.not_mem_zero hlocate he, hshort⟩, ?_⟩
  have hleads := ((locateWithin_text_iff hm).mp hlocate).2
  have hlast : fs.Leads follow 0 dir [name] (.found (dir ++ [name])) := h.leads_last he hlink
  exact hleads.append rfl hlast (List.cons_ne_nil _ _)

/-- A link leads to the same place, by whatever path its directory is reached. -/
lemma canonical?_concat (h : fs.Proper) (hm : m.Named) (hlocate : fs.locate true m.text = .ok (.found dir))
    (hdir : fs.entry? dir = some .directory) (he : fs.entry? (dir ++ [name]) = some e)
    (hnext : fs.locate true (Location.text (dir ++ [name])) = .ok (.found next))
    (hshort : (Location.text (m ++ [name])).length ≤ maxPathLength) :
    fs.canonical? (Location.text (m ++ [name])) = some next.text := by
  have hleads := ((locateWithin_text_iff hm).mp hlocate).2
  have hname := ((locateWithin_text_iff (h.named he)).mp hnext).2
  rw [h.leads_names_iff hdir] at hname
  -- the links on the way to the directory and those from there on are fewer than all that are followed
  have hboth := (hleads.append rfl hname (List.cons_ne_nil _ _)).more (by decide : _ ≤ maxCanonicalLinks)
  refine canonical?_eq_some_iff.mpr ⟨next, ?_, rfl⟩
  exact (locateWithin_text_iff (h.named_concat hm he)).mpr ⟨⟨h.not_mem_zero hlocate he, hshort⟩, hboth⟩

end

end Proper
end FileSystem
end LosslessTree
