import LosslessTree.Proofs.Files.Sidecar
import LosslessTree.Proofs.Files.Work

/-! Histories of one file: it is read, written over a snapshot, backed up, restored, and overwritten by
others. The backup keeps what was there when it was made, and a write over a snapshot never loses what
somebody else has written since. -/
namespace LosslessTree

/-- Somebody else writes a file. -/
def FileSystem.overwrite (fs : FileSystem) (path : Bytes) (data : FileData) : FileSystem :=
  match fs.locate true path with
  | .ok (.found l) => fs.set l (.file data)
  | _ => fs

/-- A regular file with this content and this mode is at a path. -/
def FileSystem.Holds (fs : FileSystem) (path content : Bytes) (mode : Nat) : Prop :=
  ∃ stamp, fs.lstat path = .ok (.file ⟨content, mode, stamp⟩)

namespace Sidecar

open FileSystem FileWork

/-- What is done to a file: calls, which may be cancelled, and writes by somebody else. -/
inductive Deed where
  | read (c : Cancellation)
  /-- A write over one of the snapshots taken so far. -/
  | writeSnapshot (c : Cancellation) (i : Nat) (content : Bytes)
  | overwrite (data : FileData) (permitted : data.Permitted)
  | backup (c : Cancellation)
  | restore (c : Cancellation)

/-- The files, and what has been read so far together with its snapshots. -/
structure Trial where
  files : FileSystem
  taken : List (Bytes × Snapshot) := []

def Deed.perform (path : Bytes) (t : Trial) : Deed → Trial
  | .read c => match runOn (FileWork.read path) ⟨t.files, c⟩ with
    | (.ok r, s) => ⟨s.files, t.taken ++ [r]⟩
    | (.error _, s) => { t with files := s.files }
  | .writeSnapshot c i content => match t.taken[i]? with
    | some r => { t with files := (runOn (FileWork.writeSnapshot r.2 content) ⟨t.files, c⟩).2.files }
    | none => t
  | .overwrite data _ => { t with files := t.files.overwrite path data }
  | .backup c => { t with files := (runOn (FileWork.backup path) ⟨t.files, c⟩).2.files }
  | .restore c => { t with files := (runOn (FileWork.restore path) ⟨t.files, c⟩).2.files }

def Trial.run (path : Bytes) (t : Trial) (deeds : List Deed) : Trial := deeds.foldl (Deed.perform path) t

variable {path content : Bytes} {base fs : FileSystem} {l b : Location} {data copy : FileData} {t : Trial}
  {d : Deed} {deeds : List Deed}

/-- What holds all along: nothing but the file and its backup changes, and all snapshots are of the file. -/
structure Kept (base : FileSystem) (path : Bytes) (l : Location) (t : Trial) : Prop where
  reached : Reached base path l t.files
  taken : ∀ r ∈ t.taken, ∃ data : FileData, data.Permitted ∧ r = (data.content, snapshotOf path data)

lemma writtenMode_eq (h : data.Permitted) : writtenMode data.mode = data.mode := by
  have hne : data.mode ≠ 0 := Nat.pos_iff_ne_zero.mp h.1
  rw [writtenMode, if_neg hne, Nat.mod_eq_of_lt h.2]

/-- Written over one of its snapshots, the file is replaced only while it has the content of the snapshot. -/
lemma Reached.writeSnapshot (hb : Begins base path l) (hr : Reached base path l fs) (hdata : data.Permitted)
    (content : Bytes) (c : Cancellation) :
    (runOn (writeSnapshot (snapshotOf path data) content) ⟨fs, c⟩).2.files = fs ∨
      (∃ now : FileData, fs.entry? l = some (.file now) ∧ Sha256.digest now.content = Sha256.digest data.content) ∧
        (runOn (writeSnapshot (snapshotOf path data) content) ⟨fs, c⟩).2.files = fs.store l content data.mode := by
  rcases writeSnapshot_cases (snapshotOf path data) content ⟨fs, c⟩ with hsame | ⟨now, hstat, hsum, hreplace⟩
  · exact .inl hsame
  · have hfiles := hr.replaceFile_path hb hreplace
    rw [show writtenMode (snapshotOf path data).mode = data.mode from writtenMode_eq hdata] at hfiles
    exact .inr ⟨⟨now, (hr.entry_of_stat hb hstat).1, hsum⟩, hfiles⟩

/-- A backup is made where there is none, of the file as it is. -/
lemma Reached.backup (hb : Begins base path l) (hr : Reached base path l fs) (c : Cancellation) :
    ((runOn (backup path) ⟨fs, c⟩).1 ≠ .ok true ∧ (runOn (backup path) ⟨fs, c⟩).2.files = fs) ∨
      Writable base path ∧ ∃ b now, Beside base path b ∧ fs.entry? b = none ∧ fs.entry? l = some (.file now) ∧
        now.Permitted ∧ (runOn (backup path) ⟨fs, c⟩).2.files = fs.store b now.content now.mode := by
  rcases backup_cases path ⟨fs, c⟩ with hsame | ⟨⟨e, he⟩, now, hstat, hreplace⟩
  · exact .inl hsame
  · obtain ⟨hnow, hpermitted⟩ := hr.entry_of_stat hb hstat
    have hnone (b : Location) (hbeside : Beside base path b) : fs.entry? b = none := by
      rcases hr.copy b hbeside with hnone | ⟨copy, hcopy, -⟩
      · exact hnone
      · cases he.symm.trans (hr.entryAt_copy hb hbeside hcopy "stat" true)
    rw [writtenMode_eq hpermitted] at hreplace
    obtain ⟨hw, b, hbeside, hfiles⟩ := hr.replaceFile_copy hb hnone hreplace
    exact .inr ⟨hw, b, now, hbeside, hnone b hbeside, hnow, hpermitted, hfiles⟩

lemma Reached.store_path (hb : Begins base path l) (hr : Reached base path l fs) (hdata : data.Permitted) :
    Reached base path l (fs.store l content data.mode) :=
  hr.of_file hb (workDir_store fs l _ _) (entry?_store fs hb.ne_nil _ _) hdata

lemma Reached.store_copy (hb : Begins base path l) (hr : Reached base path l fs) (hbeside : Beside base path b)
    (hdata : data.Permitted) : Reached base path l (fs.store b content data.mode) :=
  hr.of_copy hb hbeside (workDir_store fs b _ _) (.inr ⟨⟨content, data.mode, .own fs.writes⟩, rfl, hdata⟩)
    (entry?_store fs hbeside.ne_nil _ _)

lemma Reached.erase_copy (hb : Begins base path l) (hr : Reached base path l fs) (hbeside : Beside base path b) :
    Reached base path l (fs.erase b) :=
  hr.of_copy hb hbeside rfl (.inl rfl) (hr.entry?_erase_copy hb hbeside)

lemma Reached.remove_copy (hb : Begins base path l) (hr : Reached base path l fs) (hbeside : Beside base path b)
    (hcopy : fs.entry? b = some (.file copy)) : fs.remove (backupPath path) = .ok (fs.erase b) := by
  rw [remove, hr.locate_copy_found hb hbeside hcopy]

/-- The file is restored from the backup, which goes in the end. -/
lemma Reached.restore (hb : Begins base path l) (hr : Reached base path l fs) (c : Cancellation) :
    (runOn (restore path) ⟨fs, c⟩).2.files = fs ∨
      ∃ b copy, Beside base path b ∧ copy.Permitted ∧ fs.entry? b = some (.file copy) ∧
        ((runOn (restore path) ⟨fs, c⟩).2.files = fs.store l copy.content copy.mode ∨
          (runOn (restore path) ⟨fs, c⟩).2.files = (fs.store l copy.content copy.mode).erase b) := by
  rcases restore_cases path ⟨fs, c⟩ with hsame | ⟨copy, files, hstat, hreplace, hleft⟩
  · exact .inl hsame
  · obtain ⟨b, copy', hbeside, hcopy, he⟩ := hr.exists_of_entryAt_copy hb hstat
    obtain rfl := Entry.file.inj he
    have hpermitted : copy.Permitted := by
      rcases hr.copy b hbeside with hnone | ⟨copy', hcopy', h⟩
      · cases hnone.symm.trans hcopy
      · obtain rfl := Entry.file.inj (Option.some.inj (hcopy'.symm.trans hcopy))
        exact h
    rw [writtenMode_eq hpermitted] at hreplace
    obtain rfl := hr.replaceFile_path hb hreplace
    refine .inr ⟨b, copy, hbeside, hpermitted, hcopy, hleft.imp id fun hremove => ?_⟩
    have hne : b ≠ l := fun h => hb.not_beside (h ▸ hbeside)
    have hstored : entry? (fs.store l copy.content copy.mode) b = some (.file copy) := by
      rw [entry?_store fs hb.ne_nil, if_neg hne, hcopy]
    exact (Except.ok.inj (((hr.store_path hb hpermitted).remove_copy hb hbeside hstored).symm.trans hremove)).symm

/-- What a deed can make of the files. -/
inductive Change (base : FileSystem) (path : Bytes) (l : Location) (fs : FileSystem) : Deed → FileSystem → Prop
  | same (d : Deed) : Change base path l fs d fs
  | write (d : Deed) {fs' : FileSystem} {data : FileData} (permitted : data.Permitted)
      (workDir : fs'.workDir = fs.workDir)
      (entry : ∀ k, fs'.entry? k = if k = l then some (.file data) else fs.entry? k) : Change base path l fs d fs'
  /-- A backup is only made where there is none. -/
  | backup (c : Cancellation) {b : Location} {data : FileData} (beside : Beside base path b)
      (missing : fs.entry? b = none) (permitted : data.Permitted) :
      Change base path l fs (.backup c) (fs.store b data.content data.mode)
  | restore (c : Cancellation) {b : Location} {data : FileData} (beside : Beside base path b)
      (permitted : data.Permitted) :
      Change base path l fs (.restore c) ((fs.store l data.content data.mode).erase b)

lemma Change.store (hb : Begins base path l) (d : Deed) (hdata : data.Permitted) :
    Change base path l fs d (fs.store l content data.mode) :=
  .write d (show FileData.Permitted ⟨content, data.mode, .own fs.writes⟩ from hdata) (workDir_store fs l _ _)
    (entry?_store fs hb.ne_nil _ _)

/-- No deed changes anything but the file and its backup. -/
lemma Change.reached {fs' : FileSystem} (hb : Begins base path l) (hr : Reached base path l fs)
    (h : Change base path l fs d fs') : Reached base path l fs' := by
  cases h with
  | same => exact hr
  | write _ permitted workDir entry => exact hr.of_file hb workDir entry permitted
  | backup _ beside _ permitted => exact hr.store_copy hb beside permitted
  | restore _ beside permitted => exact (hr.store_path hb permitted).erase_copy hb beside

/-- Nothing but restoring touches a backup that is there. -/
lemma Change.entry_copy {fs' : FileSystem} (hb : Begins base path l) (h : Change base path l fs d fs')
    (hd : ∀ c, d ≠ .restore c) (hbeside : Beside base path b) (hcopy : fs.entry? b = some (.file copy)) :
    fs'.entry? b = some (.file copy) := by
  cases h with
  | same => exact hcopy
  | write _ _ _ entry =>
    have hne : b ≠ l := fun h => hb.not_beside (h ▸ hbeside)
    rw [entry, if_neg hne, hcopy]
  | backup _ beside missing =>
    obtain rfl := hbeside.unique beside
    cases missing.symm.trans hcopy
  | restore c => exact absurd rfl (hd c)

lemma Kept.change (hb : Begins base path l) (h : Kept base path l t) (d : Deed) :
    Change base path l t.files d (d.perform path t).files := by
  have hr := h.reached
  cases d with
  | read c =>
    have hsame : (Deed.perform path t (.read c)).files = t.files := by
      rw [Deed.perform]
      rcases read_cases path ⟨t.files, c⟩ with ⟨f, s', hread, hfiles⟩ | ⟨data, s', hread, hfiles, -⟩
      all_goals
        rw [hread]
        exact hfiles
    rw [hsame]
    exact .same _
  | writeSnapshot c i content =>
    rw [Deed.perform]
    cases htaken : t.taken[i]? with
    | none => exact .same _
    | some r =>
      obtain ⟨data, hpermitted, rfl⟩ := h.taken r (List.mem_of_getElem? htaken)
      dsimp only
      rcases hr.writeSnapshot hb hpermitted content c with hsame | ⟨-, hfiles⟩
      · rw [hsame]
        exact .same _
      · rw [hfiles]
        exact .store hb _ hpermitted
  | overwrite data permitted =>
    rw [Deed.perform, overwrite, hr.locate_path hb]
    exact .write _ permitted (workDir_set _ _ _) (entry?_set _ hb.ne_nil _)
  | backup c =>
    rw [Deed.perform]
    rcases hr.backup hb c with ⟨-, hsame⟩ | ⟨-, b, now, hbeside, hnone, -, hpermitted, hfiles⟩
    · rw [hsame]
      exact .same _
    · rw [hfiles]
      exact .backup c hbeside hnone hpermitted
  | restore c =>
    rw [Deed.perform]
    rcases hr.restore hb c with hsame | ⟨b, copy, hbeside, hpermitted, -, hfiles | hfiles⟩
    · rw [hsame]
      exact .same _
    · rw [hfiles]
      exact .store hb _ hpermitted
    · rw [hfiles]
      exact .restore c hbeside hpermitted

/-- Only reading takes a snapshot, and what it takes is of the file as it is. -/
lemma Kept.taken_perform (hb : Begins base path l) (h : Kept base path l t) {r : Bytes × Snapshot}
    (hr : r ∈ (d.perform path t).taken) :
    ∃ data : FileData, data.Permitted ∧ r = (data.content, snapshotOf path data) := by
  cases d with
  | read c =>
    rw [Deed.perform] at hr
    rcases read_cases path ⟨t.files, c⟩ with ⟨f, s', hread, -⟩ | ⟨data, s', hread, -, hstat⟩
    · rw [hread] at hr
      exact h.taken r hr
    · rw [hread] at hr
      rcases List.mem_append.mp hr with hold | hnew
      · exact h.taken r hold
      · exact ⟨data, (h.reached.entry_of_stat hb hstat).2, List.mem_singleton.mp hnew⟩
  | writeSnapshot c i content =>
    rw [Deed.perform] at hr
    split at hr <;> exact h.taken r hr
  | overwrite | backup | restore => exact h.taken r hr

lemma Kept.perform (hb : Begins base path l) (h : Kept base path l t) (d : Deed) :
    Kept base path l (d.perform path t) :=
  ⟨(h.change hb d).reached hb h.reached, fun _ => h.taken_perform hb⟩

lemma Kept.run (hb : Begins base path l) (h : Kept base path l t) (deeds : List Deed) :
    Kept base path l (t.run path deeds) := by
  induction deeds generalizing t with
  | nil => exact h
  | cons d deeds ih => exact ih (h.perform hb d)

lemma Kept.copy_run (hb : Begins base path l) (h : Kept base path l t) (hbeside : Beside base path b)
    (hcopy : t.files.entry? b = some (.file copy)) (hdeeds : ∀ c, .restore c ∉ deeds) :
    entry? (t.run path deeds).files b = some (.file copy) := by
  induction deeds generalizing t with
  | nil => exact hcopy
  | cons d deeds ih =>
    have hd (c : Cancellation) : d ≠ .restore c := fun hd => hdeeds c (hd ▸ .head _)
    exact ih (h.perform hb d) ((h.change hb d).entry_copy hb hd hbeside hcopy) fun c hc => hdeeds c (.tail _ hc)

variable {mode : Nat} {stamp : Stamp}

lemma Reached.holds_path (hb : Begins base path l) (hr : Reached base path l fs)
    (hfile : fs.entry? l = some (.file ⟨content, mode, stamp⟩)) : fs.Holds path content mode :=
  ⟨stamp, hr.entryAt_path hb hfile "lstat" false⟩

lemma Reached.holds_copy (hb : Begins base path l) (hr : Reached base path l fs) (hbeside : Beside base path b)
    (hcopy : fs.entry? b = some (.file ⟨content, mode, stamp⟩)) : fs.Holds (backupPath path) content mode :=
  ⟨stamp, hr.entryAt_copy hb hbeside hcopy "lstat" false⟩

/-- Restoring from a backup that is there always goes well. -/
lemma Reached.restore_ok (hb : Begins base path l) (hr : Reached base path l fs) (hw : Writable base path)
    (hbeside : Beside base path b) (hcopy : fs.entry? b = some (.file ⟨content, mode, stamp⟩))
    (hpermitted : FileData.Permitted ⟨content, mode, stamp⟩) :
    ∃ restored, runOn (FileWork.restore path) ⟨fs, .never⟩ = (.ok true, ⟨restored, .never⟩) ∧
      restored.Holds path content mode ∧ ∀ e, restored.lstat (backupPath path) ≠ .ok e := by
  have hne : b ≠ l := fun h => hb.not_beside (h ▸ hbeside)
  have hstored : Reached base path l (fs.store l content mode) := hr.store_path hb hpermitted
  have hstill : entry? (fs.store l content mode) b = some (.file ⟨content, mode, stamp⟩) := by
    rw [entry?_store fs hb.ne_nil, if_neg hne, hcopy]
  have hreached := hstored.erase_copy hb hbeside
  refine ⟨_, FileWork.restore_ok (hr.entryAt_copy hb hbeside hcopy "stat" true) ?_
    (hstored.remove_copy hb hbeside hstill), ?_, fun e he => ?_⟩
  · rw [writtenMode_eq hpermitted]
    exact hr.replaceFile_path_ok hb hw content mode
  · have hrestored : entry? ((fs.store l content mode).erase b) l =
        some (.file ⟨content, mode, .own fs.writes⟩) := by
      rw [hstored.entry?_erase_copy hb hbeside, if_neg hne.symm, entry?_store fs hb.ne_nil, if_pos rfl]
    exact hreached.holds_path hb hrestored
  · obtain ⟨b', copy', hbeside', hcopy', -⟩ := hreached.exists_of_entryAt_copy hb he
    obtain rfl := hbeside.unique hbeside'
    rw [hstored.entry?_erase_copy hb hbeside, if_pos rfl] at hcopy'
    cases hcopy'

/-- What a backup of the file as it is comes to: until the next restoring it has the content and the mode that
the file has now, and restoring brings both back. -/
structure KeepsOriginal (path : Bytes) (t : Trial) (data : FileData) : Prop where
  backup : ∀ c, (runOn (FileWork.backup path) ⟨t.files, c⟩).1 = .ok true →
    ∀ deeds : List Deed, (∀ c', .restore c' ∉ deeds) →
      (t.run path (.backup c :: deeds)).files.Holds (backupPath path) data.content data.mode
  restore : ∀ c, (runOn (FileWork.backup path) ⟨t.files, c⟩).1 = .ok true →
    ∀ deeds : List Deed, (∀ c', .restore c' ∉ deeds) →
      ∃ restored, runOn (FileWork.restore path) ⟨(t.run path (.backup c :: deeds)).files, .never⟩ =
          (.ok true, ⟨restored, .never⟩) ∧
        restored.Holds path data.content data.mode ∧ ∀ e, restored.lstat (backupPath path) ≠ .ok e

lemma Kept.keepsOriginal (hb : Begins base path l) (h : Kept base path l t)
    (hdata : t.files.entry? l = some (.file data)) : KeepsOriginal path t data := by
  have hmade (c : Cancellation) (hbackup : (runOn (FileWork.backup path) ⟨t.files, c⟩).1 = .ok true)
      (deeds : List Deed) (hdeeds : ∀ c', .restore c' ∉ deeds) : Writable base path ∧ data.Permitted ∧
        ∃ b stamp, Beside base path b ∧
          entry? (t.run path (.backup c :: deeds)).files b = some (.file ⟨data.content, data.mode, stamp⟩) := by
    rcases h.reached.backup hb c with ⟨hnot, -⟩ | ⟨hw, b, now, hbeside, -, hnow, hpermitted, hfiles⟩
    · exact absurd hbackup hnot
    obtain rfl := Entry.file.inj (Option.some.inj (hdata.symm.trans hnow))
    have hcopy : entry? (Deed.perform path t (.backup c)).files b =
        some (.file ⟨data.content, data.mode, .own t.files.writes⟩) := by
      change entry? (runOn (FileWork.backup path) ⟨t.files, c⟩).2.files b = _
      rw [hfiles, entry?_store _ hbeside.ne_nil, if_pos rfl]
    have hstill := (h.perform hb (.backup c)).copy_run hb hbeside hcopy hdeeds
    exact ⟨hw, hpermitted, b, _, hbeside, hstill⟩
  constructor
  · intro c hbackup deeds hdeeds
    obtain ⟨-, -, b, stamp, hbeside, hcopy⟩ := hmade c hbackup deeds hdeeds
    exact (h.run hb _).reached.holds_copy hb hbeside hcopy
  · intro c hbackup deeds hdeeds
    obtain ⟨hw, hpermitted, b, stamp, hbeside, hcopy⟩ := hmade c hbackup deeds hdeeds
    exact (h.run hb _).reached.restore_ok hb hw hbeside hcopy hpermitted

/-- No collision: two contents with the same digest are the same. -/
def CollisionFree (a b : Bytes) : Prop := Sha256.digest a = Sha256.digest b → a = b

/-- What a write over a snapshot comes to: the file is changed only if it has the content that the snapshot was
taken from, and is stale otherwise. -/
structure KeepsForeign (path : Bytes) (t : Trial) (data : FileData) : Prop where
  changed : ∀ r ∈ t.taken, CollisionFree data.content r.1 → ∀ c content,
    (runOn (FileWork.writeSnapshot r.2 content) ⟨t.files, c⟩).2.files ≠ t.files → data.content = r.1
  stale : ∀ r ∈ t.taken, CollisionFree data.content r.1 → data.content ≠ r.1 → ∀ content,
    runOn (FileWork.writeSnapshot r.2 content) ⟨t.files, .never⟩ =
      (.error (staleFailure path), ⟨t.files, .never⟩)

lemma Kept.keepsForeign (hb : Begins base path l) (h : Kept base path l t)
    (hdata : t.files.entry? l = some (.file data)) : KeepsForeign path t data where
  changed r hr hcollision c content hchanged := by
    obtain ⟨taken, hpermitted, rfl⟩ := h.taken r hr
    rcases h.reached.writeSnapshot hb hpermitted content c with hsame | ⟨⟨now, hnow, hsum⟩, -⟩
    · exact absurd hsame hchanged
    · obtain rfl := Entry.file.inj (Option.some.inj (hdata.symm.trans hnow))
      exact hcollision hsum
  stale r hr hcollision hne content := by
    obtain ⟨taken, -, rfl⟩ := h.taken r hr
    have hstat : t.files.stat (snapshotOf path taken).path = .ok (.file data) :=
      h.reached.entryAt_path hb hdata "stat" true
    exact writeSnapshot_stale hstat (fun hsum => hne (hcollision hsum)) content

/-- However a file without a backup has been read, written, backed up, restored and overwritten: it still is
there, a backup made now keeps what it holds, and no write over a snapshot loses what it holds. -/
theorem history_kept {data : FileData} (hsound : base.Sound) (hfile : base.lstat path = .ok (.file data))
    (hpermitted : data.Permitted) (halone : ∀ e, base.lstat (backupPath path) ≠ .ok e) (deeds : List Deed) :
    ∃ now : FileData, (Trial.run path ⟨base, []⟩ deeds).files.lstat path = .ok (.file now) ∧
      KeepsOriginal path (Trial.run path ⟨base, []⟩ deeds) now ∧
      KeepsForeign path (Trial.run path ⟨base, []⟩ deeds) now := by
  obtain ⟨l, hlocate, hentry⟩ : ∃ l, base.locate false path = .ok (.found l) ∧ base.entry? l = some (.file data) := by
    rw [lstat, entryAt] at hfile
    rcases hlocate : base.locate false path with fault | l | ⟨dir, name⟩
    · rw [hlocate] at hfile
      cases hfile
    · rw [hlocate] at hfile
      refine ⟨l, rfl, ?_⟩
      cases hentry : base.entry? l with
      | none => simp [hentry] at hfile
      | some e => simpa [hentry] using hfile
    · rw [hlocate] at hfile
      cases hfile
  have hb : Begins base path l := ⟨hsound, hlocate, ⟨data, hentry⟩, halone⟩
  have hstart : Kept base path l ⟨base, []⟩ :=
    ⟨⟨rfl, fun _ _ _ => rfl, ⟨data, hentry, hpermitted⟩, fun b hbeside => .inl hbeside.missing⟩,
      List.forall_mem_nil _⟩
  have hkept := hstart.run hb deeds
  obtain ⟨now, hnow, -⟩ := hkept.reached.file
  exact ⟨now, hkept.reached.entryAt_path hb hnow "lstat" false, hkept.keepsOriginal hb hnow,
    hkept.keepsForeign hb hnow⟩

section Overwritten

/-- A single file. -/
def single (data : FileData) : FileSystem where
  entries := [(["f"], .file data)]

lemma sound_single (data : FileData) : (single data).Sound where
  parent k e he := by
    cases k with
    | nil => rfl
    | cons name rest =>
      rw [entry?_of_ne_nil _ (List.cons_ne_nil _ _), single, lookup_cons_ite] at he
      split at he
      · next hk =>
        obtain ⟨-, rfl⟩ := List.cons_eq_cons.mp hk
        rfl
      · cases he
  workDir e he := (Option.some.inj he).symm

lemma lstat_single (data : FileData) : (single data).lstat "/f" = .ok (.file data) := rfl

lemma stat_single (data : FileData) : (single data).stat "/f" = .ok (.file data) := rfl

lemma lstat_copy_single (data : FileData) :
    (single data).lstat (backupPath "/f") = refused "lstat" (backupPath "/f") .notFound := rfl

lemma stat_copy_single (data : FileData) :
    (single data).stat (backupPath "/f") = refused "stat" (backupPath "/f") .notFound := rfl

lemma overwrite_single (data data' : FileData) : (single data).overwrite "/f" data' = single data' := rfl

lemma replaceFile_copy_single (data : FileData) (content : Bytes) (mode : Nat) :
    (single data).replaceFile (backupPath "/f") content mode =
      .ok ((single data).store [Bytes.ofString "f.syntree.bak"] content mode) := rfl

end Overwritten

/-- A file is read, and somebody else writes it. What was read is stale then, and a backup keeps what the other
has written, though it is written once more and backed up again before it is restored. -/
theorem history_kept_overwritten :
    let old : FileData := ⟨"old", 0o640, .outside 1⟩
    let new : FileData := ⟨"new", 0o600, .outside 2⟩
    let t := Trial.run "/f" ⟨single old, []⟩ [.read .never, .overwrite new (by decide)]
    (∃ r ∈ t.taken, r.1 = Bytes.ofString "old" ∧
      runOn (FileWork.writeSnapshot r.2 "mine") ⟨t.files, .never⟩ =
        (.error (staleFailure "/f"), ⟨t.files, .never⟩)) ∧
    ∃ restored, runOn (FileWork.restore "/f") ⟨(t.run "/f" [.backup .never, .overwrite old (by decide),
        .backup .never, .writeSnapshot .never 0 "mine"]).files, .never⟩ = (.ok true, ⟨restored, .never⟩) ∧
      restored.Holds "/f" "new" 0o600 ∧ ∀ e, restored.lstat (backupPath "/f") ≠ .ok e := by
  intro old new t
  have hold : old.Permitted := by decide
  have hnew : new.Permitted := by decide
  have ht : t = ⟨single new, [(old.content, snapshotOf "/f" old)]⟩ := by
    have hread : runOn (FileWork.read "/f") ⟨single old, .never⟩ =
        (.ok (old.content, snapshotOf "/f" old), ⟨single old, .never⟩) := by
      simp [runOn_read, stat_single]
    simp only [t, Trial.run, List.foldl_cons, List.foldl_nil, Deed.perform, hread, overwrite_single,
      List.nil_append]
  have halone (e : Entry) : (single old).lstat (backupPath "/f") ≠ .ok e := by
    rw [lstat_copy_single]
    nofun
  obtain ⟨now, hnow, hkeeps, hforeign⟩ := history_kept (sound_single old) (lstat_single old) hold halone
    [.read .never, .overwrite new hnew]
  change t.files.lstat "/f" = _ at hnow
  change KeepsOriginal "/f" t now at hkeeps
  change KeepsForeign "/f" t now at hforeign
  obtain rfl : new = now := by
    rw [ht, lstat_single] at hnow
    exact Entry.file.inj (Except.ok.inj hnow)
  constructor
  · have hmem : (old.content, snapshotOf "/f" old) ∈ t.taken := by
      rw [ht]
      exact .head _
    have hfree : CollisionFree new.content old.content := fun h => absurd h (by decide +kernel)
    exact ⟨_, hmem, rfl, hforeign.stale _ hmem hfree (by decide) "mine"⟩
  · have hbackup : (runOn (FileWork.backup "/f") ⟨t.files, .never⟩).1 = .ok true := by
      rw [ht]
      rw [backup_ok (stat_copy_single new) rfl (stat_single new) (replaceFile_copy_single new _ _)]
    exact hkeeps.restore .never hbackup _ (by simp)

end Sidecar
end LosslessTree
