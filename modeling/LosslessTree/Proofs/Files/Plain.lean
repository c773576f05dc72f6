import LosslessTree.Proofs.Files.Location
import LosslessTree.Proofs.Files.Resolve
import Mathlib.Data.List.Nodup
import Mathlib.Data.List.Perm.Subperm

/-! File systems without links. There a location has one clean path, which leads to it and nowhere else. -/
namespace LosslessTree

def Entry.isLink : Entry → Bool
  | .link _ => true
  | _ => false

namespace FileSystem

open Location

/-- A name that an entry can have. -/
structure Legal (name : Bytes) : Prop extends Path.IsName name where
  nonzero : 0 ∉ name
  length_le : name.length ≤ maxNameLength

/-- A tree of files and directories, without links. Names and paths are such as the system takes. -/
structure Plain (fs : FileSystem) : Prop extends Sound fs where
  legal : ∀ l e, fs.entry? l = some e → ∀ name ∈ l, Legal name
  unlinked : ∀ l target, fs.entry? l ≠ some (.link target)
  short : ∀ l e, fs.entry? l = some e → l.text.length ≤ maxPathLength

instance (name : Bytes) : Decidable (Legal name) :=
  decidable_of_iff (Path.IsName name ∧ 0 ∉ name ∧ name.length ≤ maxNameLength)
    ⟨fun ⟨hname, hnonzero, hlength⟩ => ⟨hname, hnonzero, hlength⟩,
      fun h => ⟨h.toIsName, h.nonzero, h.length_le⟩⟩

variable {fs : FileSystem} {l here : Location} {e : Entry} {name : Bytes} {names : List Bytes} {follow : Bool}
  {links : Nat} {place : Place}

lemma Legal.ordinary (h : Legal name) : Ordinary name := ⟨h.ne_nil, h.ne_here, h.ne_up, h.length_le⟩

/-- What is listed by its location can be looked up there. -/
lemma isSome_entry?_iff (hl : l ≠ []) : (fs.entry? l).isSome = true ↔ l ∈ fs.entries.map Prod.fst := by
  rw [entry?_of_ne_nil fs hl, List.lookup_isSome_iff, List.mem_map]
  exact exists_congr fun p => and_congr_right fun _ => beq_iff_eq.trans eq_comm

lemma mem_names : name ∈ fs.names l ↔ (fs.entry? (l ++ [name])).isSome = true := by
  rw [isSome_entry?_iff (by simp), names, Bytes.mem_sort, List.mem_filterMap, List.mem_map]
  refine exists_congr fun p => and_congr_right fun _ => ?_
  dsimp only
  split_ifs with hp
  · rw [List.getLast?_eq_some_iff]
    constructor
    · rintro ⟨above, habove⟩
      rw [← hp.2, habove, List.dropLast_concat]
    · exact fun heq => ⟨l, heq⟩
  · refine ⟨nofun, fun heq => absurd ?_ hp⟩
    rw [heq]
    simp

lemma isDirectory_of_there (he : fs.entry? l = some .directory) : fs.isDirectory l = true := by
  simp [FileSystem.isDirectory, he, Entry.isDirectory]

namespace Plain

lemma named (h : fs.Plain) (he : fs.entry? l = some e) : l.Named :=
  fun name hname => (h.legal l e he name hname).toIsName

/-- The names on the way to an entry lead to it. -/
lemma leads (h : fs.Plain) (he : fs.entry? (here ++ names) = some e) :
    fs.Leads follow links here names (.found (here ++ names)) := by
  induction names generalizing here with
  | nil =>
    rw [List.append_nil]
    exact .done
  | cons name names ih =>
    have hhere : fs.entry? here = some .directory :=
      h.toSound.above (List.prefix_append _ _) (by simp) he
    have hname : Ordinary name := (h.legal _ _ he name (by simp)).ordinary
    have hstep : here ++ name :: names = here ++ [name] ++ names := by simp
    rw [hstep] at he ⊢
    obtain ⟨e', he'⟩ : ∃ e', fs.entry? (here ++ [name]) = some e' := by
      by_cases hnames : names = []
      · subst hnames
        exact ⟨e, by simpa using he⟩
      · exact ⟨_, h.toSound.above (List.prefix_append _ _) (by simpa using hnames) he⟩
    exact .enter (isDirectory_of_there hhere) hname he' (fun target ht => h.unlinked _ target (ht ▸ he')) (ih he)

/-- They lead nowhere else. -/
lemma leads_found {m : Location} (h : fs.Plain) (hnames : Named names)
    (hleads : fs.Leads follow links here names place) (hplace : place = .found m) :
    m = here ++ names ∧ ((fs.entry? here).isSome → (fs.entry? m).isSome) := by
  induction hleads with
  | done =>
    cases hplace
    exact ⟨(List.append_nil _).symm, id⟩
  | stay hdir hname hrest ih =>
    have hhead := (List.forall_mem_cons.mp hnames).1
    exact hname.elim (absurd · hhead.ne_nil) (absurd · hhead.ne_here)
  | up hdir hrest ih => exact absurd rfl (List.forall_mem_cons.mp hnames).1.ne_up
  | absent hdir hname hnone => cases hplace
  | stop hdir hname hlink hstop => exact absurd hlink (h.unlinked _ _)
  | through hdir hname hlink hgo htarget hrest ih => exact absurd hlink (h.unlinked _ _)
  | @enter links here name rest e place hdir hname hentry hnot hrest ih =>
    obtain ⟨rfl, hsome⟩ := ih (List.forall_mem_cons.mp hnames).2 hplace
    exact ⟨by simp, fun _ => hsome (by rw [hentry, Option.isSome_some])⟩

/-- The text of a location is a path that can be asked for. -/
lemma askable (h : fs.Plain) (he : fs.entry? l = some e) :
    l.text ≠ [] ∧ 0 ∉ l.text ∧ l.text.length ≤ maxPathLength := by
  refine ⟨text_ne_nil l, fun hzero => ?_, h.short l e he⟩
  rcases mem_text hzero with hsep | ⟨name, hname, hmem⟩
  · exact absurd hsep (by decide)
  · exact (h.legal l e he name hname).nonzero hmem

/-- The text of a location is looked up name by name from the root. -/
lemma leads_split_iff (hl : l.Named) :
    fs.Leads follow links [] (Bytes.split Path.separator l.text) place ↔ fs.Leads follow links [] l place := by
  have hskip {rest : List Bytes} :
      fs.Leads follow links [] ([] :: rest) place ↔ fs.Leads follow links [] rest place := by
    refine ⟨fun hleads => ?_, .stay (isDirectory_of_there (entry?_nil fs)) (.inl rfl)⟩
    cases hleads with
    | stay hdir hname hrest => exact hrest
    | absent hdir hname hnone => exact absurd rfl hname.ne_nil
    | stop hdir hname hlink hstop => exact absurd rfl hname.ne_nil
    | through hdir hname hlink hgo htarget hrest => exact absurd rfl hname.ne_nil
    | enter hdir hname hentry hnot hrest => exact absurd rfl hname.ne_nil
  rw [split_text hl, hskip]
  split_ifs with hnil
  · rw [hnil, hskip]
  · rfl

lemma locateWithin_text (h : fs.Plain) (he : fs.entry? l = some e) (links : Nat) (follow : Bool) :
    fs.locateWithin links follow l.text = .ok (.found l) := by
  obtain ⟨hne, hzero, hlen⟩ := h.askable he
  have hnames : fs.Leads follow links [] l (.found l) := h.leads he
  have hleads := (leads_split_iff (h.named he)).mpr hnames
  simp [locateWithin, hne, hzero, Nat.not_lt.mpr hlen, resolve_of_leads hleads]

lemma locate_text (h : fs.Plain) (he : fs.entry? l = some e) (follow : Bool) :
    fs.locate follow l.text = .ok (.found l) :=
  h.locateWithin_text he maxLinks follow

lemma lstat_text (h : fs.Plain) (he : fs.entry? l = some e) : fs.lstat l.text = .ok e :=
  entryAt_of_locate (h.locate_text he false) he "lstat"

lemma stat_text_iff (h : fs.Plain) (hl : l.Named) : fs.stat l.text = .ok e ↔ fs.entry? l = some e := by
  refine ⟨fun hstat => ?_, fun he => entryAt_of_locate (h.locate_text he true) he "stat"⟩
  unfold stat entryAt at hstat
  split at hstat
  · next m hlocate =>
    have hleads := (leads_split_iff hl).mp (locate_eq_ok_iff.mp hlocate).2
    obtain ⟨rfl, hsome⟩ := h.leads_found hl hleads rfl
    obtain ⟨e', he'⟩ := Option.isSome_iff_exists.mp (hsome rfl)
    rw [he', Option.getD_some] at hstat
    rw [he', Except.ok.inj hstat]
  · cases hstat
  · cases hstat

lemma canonical?_text (h : fs.Plain) (he : fs.entry? l = some e) : fs.canonical? l.text = some l.text := by
  simp only [canonical?, h.locateWithin_text he]

lemma namesAt_text (h : fs.Plain) (he : fs.entry? l = some e) : fs.namesAt l.text = fs.names l := by
  simp only [namesAt, h.locate_text he]

/-- Every entry is below as many others as its location has names. -/
lemma length_le_entries (h : fs.Plain) (he : fs.entry? l = some e) : l.length ≤ fs.entries.length := by
  -- the beginnings of the location are entries of their own, all different
  have hnodup : ((List.range l.length).map fun n => l.take (n + 1)).Nodup := by
    refine List.nodup_range.map_on fun n hn k hk heq => ?_
    have hlength := congrArg List.length heq
    rw [List.mem_range] at hn hk
    rw [List.length_take_of_le hn, List.length_take_of_le hk] at hlength
    exact Nat.succ.inj hlength
  have hsubset : ((List.range l.length).map fun n => l.take (n + 1)) ⊆ fs.entries.map Prod.fst := by
    intro k hk
    obtain ⟨n, hn, rfl⟩ := List.mem_map.mp hk
    have hne : l.take (n + 1) ≠ [] := by
      have := List.mem_range.mp hn
      exact List.ne_nil_of_length_pos (by rw [List.length_take]; omega)
    refine (isSome_entry?_iff hne).mp ?_
    by_cases hall : l.take (n + 1) = l
    · rw [hall, he, Option.isSome_some]
    · rw [h.toSound.above (List.take_prefix _ _) hall he, Option.isSome_some]
  simpa using (hnodup.subperm hsubset).length_le

end Plain

/-- An entry in a directory that is no link and has a path to ask for it. -/
structure Fits (fs : FileSystem) (l : Location) (e : Entry) : Prop where
  parent : fs.entry? l.dropLast = some .directory
  legal : ∀ name ∈ l, Legal name
  unlinked : e.isLink = false
  short : l.text.length ≤ maxPathLength

instance (fs : FileSystem) (l : Location) (e : Entry) : Decidable (fs.Fits l e) :=
  decidable_of_iff (fs.entry? l.dropLast = some .directory ∧ (∀ name ∈ l, Legal name) ∧ e.isLink = false ∧
      l.text.length ≤ maxPathLength)
    ⟨fun ⟨hparent, hlegal, hunlinked, hshort⟩ => ⟨hparent, hlegal, hunlinked, hshort⟩,
      fun h => ⟨h.parent, h.legal, h.unlinked, h.short⟩⟩

/-- It is enough to look at the root and at the entries that are listed. -/
lemma forall_entry? {P : Location → Entry → Prop} (hroot : P [] .directory) (h : ∀ p ∈ fs.entries, P p.1 p.2) :
    ∀ l e, fs.entry? l = some e → P l e := by
  intro l e he
  by_cases hl : l = []
  · subst hl
    obtain rfl := Option.some.inj he
    exact hroot
  · rw [entry?_of_ne_nil fs hl, List.lookup_eq_some_iff] at he
    obtain ⟨before, after, heq, -⟩ := he
    exact h (l, e) (by rw [heq]; exact List.mem_append_right _ List.mem_cons_self)

lemma plain_of_entries (h : ∀ p ∈ fs.entries, fs.Fits p.1 p.2) (hwork : fs.entry? fs.workDir = some .directory) :
    fs.Plain := by
  have hfits := forall_entry? (P := fs.Fits) ⟨rfl, List.forall_mem_nil _, rfl, by decide⟩ h
  exact {
    parent := fun l e he => (hfits l e he).parent
    workDir := fun e he => Option.some.inj (he.symm.trans hwork)
    legal := fun l e he => (hfits l e he).legal
    unlinked := fun l target he => Bool.noConfusion (hfits l (.link target) he).unlinked
    short := fun l e he => (hfits l e he).short }

end FileSystem
end LosslessTree
