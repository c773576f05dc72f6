import LosslessTree.Files.Backup
import LosslessTree.Proofs.Files.Resolve
import LosslessTree.Proofs.Text.Path

/-! A file and the place beside it for its backup. While only these two change, both paths lead where they
have led, and what is done to one does not touch the other. -/
namespace LosslessTree

namespace FileWork

/-- What is appended to a path for its backup. -/
def suffix : Bytes := ".syntree.bak"

lemma backupPath_eq (path : Bytes) : backupPath path = path ++ suffix := rfl

lemma suffix_ne_nil : suffix ≠ [] := by decide

lemma takeWhile_backupPath (path : Bytes) :
    (backupPath path).reverse.takeWhile (· != Path.separator) =
      suffix.reverse ++ path.reverse.takeWhile (· != Path.separator) := by
  rw [backupPath_eq, List.reverse_append]
  exact List.takeWhile_append_of_pos (by decide +kernel)

/-- A file and its backup are in one directory. -/
lemma dir_backupPath (path : Bytes) : Path.dir (backupPath path) = Path.dir path := by
  have hle : (path.reverse.takeWhile (· != Path.separator)).length ≤ path.length := by
    simpa using (List.takeWhile_sublist (l := path.reverse) (· != Path.separator)).length_le
  unfold Path.dir
  rw [takeWhile_backupPath, backupPath_eq, List.length_append, List.length_append, List.length_reverse,
    Nat.add_comm path.length, Nat.add_sub_add_left, List.take_append_of_le_length (Nat.sub_le _ _)]

/-- The name of a backup is longer than that of its file. -/
lemma length_base_le {path : Bytes} (h : path.getLast? ≠ some Path.separator) :
    (Path.base path).length ≤ (Path.base (backupPath path)).length := by
  have hcopy : (backupPath path).getLast? ≠ some Path.separator := by
    have hlast : suffix.getLast? = some 0x6B := by decide
    rw [backupPath_eq, List.getLast?_append, hlast, Option.some_or]
    decide
  rw [Path.base_eq (by simp [backupPath_eq, suffix_ne_nil]) hcopy, takeWhile_backupPath]
  by_cases hne : path = []
  · subst hne
    decide
  · rw [Path.base_eq hne h]
    simp

/-- Behind a slash at the end of a path is one more piece, an empty one. -/
lemma getLast?_split {path : Bytes} (h : path.getLast? = some Path.separator) :
    (Bytes.split Path.separator path).tail.getLast? = some [] := by
  induction path with
  | nil => cases h
  | cons b rest ih =>
    cases rest with
    | nil =>
      obtain rfl : b = Path.separator := by simpa using h
      decide
    | cons b' rest =>
      have hrest := ih (by rwa [List.getLast?_cons_cons] at h)
      rw [Bytes.split]
      split
      · cases hsplit : Bytes.split Path.separator (b' :: rest) with
        | nil => simp [hsplit] at hrest
        | cons first pieces =>
          rw [hsplit, List.tail_cons] at hrest
          rw [List.tail_cons, List.getLast?_cons, hrest, Option.getD_some]
      · exact hrest

end FileWork

/-- Permission bits of which some are set. -/
def FileData.Permitted (data : FileData) : Prop := 0 < data.mode ∧ data.mode < 0o1000

instance (data : FileData) : Decidable data.Permitted :=
  inferInstanceAs (Decidable (0 < data.mode ∧ data.mode < 0o1000))

namespace Sidecar

open FileSystem FileWork

variable {path content : Bytes} {base fs fs' : FileSystem} {l b : Location} {data : FileData} {mode : Nat}

/-- A regular file that has no backup. -/
structure Begins (base : FileSystem) (path : Bytes) (l : Location) : Prop where
  sound : base.Sound
  located : base.locate false path = .ok (.found l)
  file : ∃ data, base.entry? l = some (.file data)
  alone : ∀ e, base.lstat (backupPath path) ≠ .ok e

/-- Where the backup comes to stand, if its path leads anywhere. -/
def Beside (base : FileSystem) (path : Bytes) (b : Location) : Prop :=
  ∃ dir name, base.locate false (backupPath path) = .ok (.absent dir name) ∧ b = dir ++ [name]

/-- What can become of the files while only the file and its backup change. -/
structure Reached (base : FileSystem) (path : Bytes) (l : Location) (fs : FileSystem) : Prop where
  workDir : fs.workDir = base.workDir
  elsewhere : ∀ k, k ≠ l → ¬ Beside base path k → fs.entry? k = base.entry? k
  file : ∃ data, fs.entry? l = some (.file data) ∧ data.Permitted
  copy : ∀ b, Beside base path b → fs.entry? b = none ∨ ∃ data, fs.entry? b = some (.file data) ∧ data.Permitted

lemma Beside.missing (h : Beside base path b) : base.entry? b = none := by
  obtain ⟨dir, name, hlocate, rfl⟩ := h
  exact entry?_of_locate_absent hlocate

lemma Beside.ne_nil (h : Beside base path b) : b ≠ [] := by
  obtain ⟨dir, name, -, rfl⟩ := h
  simp

lemma Beside.unique {b' : Location} (h : Beside base path b) (h' : Beside base path b') : b' = b := by
  obtain ⟨dir, name, hlocate, rfl⟩ := h
  obtain ⟨dir', name', hlocate', rfl⟩ := h'
  obtain ⟨rfl, rfl⟩ := Place.absent.inj (Except.ok.inj (hlocate'.symm.trans hlocate))
  rfl

namespace Begins

lemma ne_nil (h : Begins base path l) : l ≠ [] := by
  obtain ⟨data, hfile⟩ := h.file
  rintro rfl
  cases hfile

lemma not_beside (h : Begins base path l) : ¬ Beside base path l := fun hl => by
  obtain ⟨data, hfile⟩ := h.file
  cases hl.missing.symm.trans hfile

/-- The path of a file does not end in a slash. -/
lemma getLast?_ne (h : Begins base path l) : path.getLast? ≠ some Path.separator := fun hlast => by
  obtain ⟨data, hfile⟩ := h.file
  have hsplit := getLast?_split hlast
  have hend : (Bytes.split Path.separator path).getLast? = some [] := by
    rw [List.getLast?_tail] at hsplit
    split at hsplit
    · cases hsplit
    · exact hsplit
  have hdir := (locate_eq_ok_iff.mp h.located).2.isDirectory hend rfl
  cases (h.sound.not_isDirectory hfile).symm.trans hdir

/-- The path of the backup leads to where it comes to stand, or nowhere. -/
lemma locate_copy (h : Begins base path l) (hnot : ∀ b, ¬ Beside base path b) (place : Place) :
    base.locate false (backupPath path) ≠ .ok place := fun hlocate => by
  cases place with
  | found m => exact h.alone _ (by rw [lstat, entryAt, hlocate])
  | absent dir name => exact hnot _ ⟨dir, name, hlocate, rfl⟩

end Begins

namespace Reached

lemma isDirectory (hb : Begins base path l) (hr : Reached base path l fs) (k : Location) :
    fs.isDirectory k = base.isDirectory k := by
  have hentry : (fs.entry? k).any Entry.isDirectory = (base.entry? k).any Entry.isDirectory := by
    by_cases hk : k = l
    · subst hk
      obtain ⟨data, hdata, -⟩ := hr.file
      obtain ⟨data', hdata'⟩ := hb.file
      rw [hdata, hdata']
      rfl
    · by_cases hbeside : Beside base path k
      · rw [hbeside.missing]
        rcases hr.copy k hbeside with hnone | ⟨data, hdata, -⟩
        · rw [hnone]
        · rw [hdata]
          rfl
      · rw [hr.elsewhere k hk hbeside]
  rw [FileSystem.isDirectory, FileSystem.isDirectory, hr.workDir, hentry]

/-- All that was there at the beginning still is. -/
lemma compatible (hb : Begins base path l) (hr : Reached base path l fs) : Compatible base fs where
  workDir := hr.workDir
  isDirectory := hr.isDirectory hb
  entry k e he := by
    by_cases hk : k = l
    · subst hk
      obtain ⟨data, hdata, -⟩ := hr.file
      obtain ⟨data', hdata'⟩ := hb.file
      obtain rfl := Option.some.inj (hdata'.symm.trans he)
      exact ⟨_, hdata, .file _ _⟩
    · have hbeside : ¬ Beside base path k := fun h => by cases h.missing.symm.trans he
      exact ⟨e, (hr.elsewhere k hk hbeside).trans he, .same e⟩

/-- Without a backup nothing else is there either. -/
lemma compatible_base (hb : Begins base path l) (hr : Reached base path l fs)
    (hnone : ∀ b, Beside base path b → fs.entry? b = none) : Compatible fs base where
  workDir := hr.workDir.symm
  isDirectory k := (hr.isDirectory hb k).symm
  entry k e he := by
    by_cases hk : k = l
    · subst hk
      obtain ⟨data, hdata, -⟩ := hr.file
      obtain ⟨data', hdata'⟩ := hb.file
      obtain rfl := Option.some.inj (hdata.symm.trans he)
      exact ⟨_, hdata', .file _ _⟩
    · have hbeside : ¬ Beside base path k := fun h => by cases (hnone k h).symm.trans he
      exact ⟨e, (hr.elsewhere k hk hbeside).symm.trans he, .same e⟩

lemma locate_path (hb : Begins base path l) (hr : Reached base path l fs) (follow : Bool) :
    fs.locate follow path = .ok (.found l) := by
  obtain ⟨data, hfile⟩ := hb.file
  refine (hr.compatible hb).locate_found ?_
  cases follow with
  | false => exact hb.located
  | true =>
    refine locate_followed hb.located fun m target hm => ?_
    cases hm
    rw [hfile]
    nofun

lemma entryAt_path (hb : Begins base path l) (hr : Reached base path l fs) (hdata : fs.entry? l = some (.file data))
    (action : Bytes) (follow : Bool) : fs.entryAt action follow path = .ok (.file data) :=
  entryAt_of_locate (hr.locate_path hb follow) hdata action

/-- What is read at the path is the file. -/
lemma entry_of_stat (hb : Begins base path l) (hr : Reached base path l fs) (h : fs.stat path = .ok (.file data)) :
    fs.entry? l = some (.file data) ∧ data.Permitted := by
  obtain ⟨now, hnow, hpermitted⟩ := hr.file
  obtain rfl := Entry.file.inj (Except.ok.inj (h.symm.trans (hr.entryAt_path hb hnow "stat" true)))
  exact ⟨hnow, hpermitted⟩

/-- The path of the backup leads to it, or to where it is missing. -/
lemma locate_copy (hb : Begins base path l) (hr : Reached base path l fs) {dir : Location} {name : Bytes}
    (h : base.locate false (backupPath path) = .ok (.absent dir name)) (follow : Bool) :
    fs.locate follow (backupPath path) = .ok (fs.atPlace (.absent dir name)) := by
  have hbase : base.locate follow (backupPath path) = .ok (.absent dir name) := by
    cases follow with
    | false => exact h
    | true => exact locate_followed h nofun
  refine (hr.compatible hb).locate hbase fun dir' name' target hplace => ?_
  cases hplace
  rcases hr.copy _ ⟨dir, name, h, rfl⟩ with hnone | ⟨data, hdata, -⟩
  · rw [hnone]
    nofun
  · rw [hdata]
    nofun

lemma locate_copy_found (hb : Begins base path l) (hr : Reached base path l fs) (hbeside : Beside base path b)
    (hdata : fs.entry? b = some (.file data)) (follow : Bool) :
    fs.locate follow (backupPath path) = .ok (.found b) := by
  obtain ⟨dir, name, hlocate, rfl⟩ := hbeside
  rw [hr.locate_copy hb hlocate, atPlace, hdata]
  rfl

lemma entryAt_copy (hb : Begins base path l) (hr : Reached base path l fs) (hbeside : Beside base path b)
    (hdata : fs.entry? b = some (.file data)) (action : Bytes) (follow : Bool) :
    fs.entryAt action follow (backupPath path) = .ok (.file data) :=
  entryAt_of_locate (hr.locate_copy_found hb hbeside hdata follow) hdata action

lemma entryAt_copy_none (hb : Begins base path l) (hr : Reached base path l fs) (hbeside : Beside base path b)
    (hnone : fs.entry? b = none) (action : Bytes) (follow : Bool) :
    fs.entryAt action follow (backupPath path) = refused action (backupPath path) .notFound := by
  obtain ⟨dir, name, hlocate, rfl⟩ := hbeside
  rw [entryAt, hr.locate_copy hb hlocate, atPlace, hnone]
  rfl

/-- A path of the backup that leads nowhere stays so. -/
lemma locate_copy_ne (hb : Begins base path l) (hr : Reached base path l fs) (hnot : ∀ b, ¬ Beside base path b)
    (follow : Bool) (place : Place) : fs.locate follow (backupPath path) ≠ .ok place := fun hlocate => by
  have hunfollowed : ∃ place, fs.locate false (backupPath path) = .ok place := by
    cases follow with
    | false => exact ⟨place, hlocate⟩
    | true => exact locate_unfollowed hlocate
  obtain ⟨place, hlocate⟩ := hunfollowed
  refine hb.locate_copy hnot _
    ((hr.compatible_base hb fun b h => absurd h (hnot b)).locate hlocate fun dir name target hplace hlink => ?_)
  subst hplace
  obtain ⟨e, he, -⟩ := (hr.compatible hb).entry _ _ hlink
  cases (entry?_of_locate_absent hlocate).symm.trans he

/-- What stands at the path of the backup is the backup. -/
lemma exists_of_entryAt_copy (hb : Begins base path l) (hr : Reached base path l fs) {action : Bytes} {follow : Bool}
    {e : Entry} (h : fs.entryAt action follow (backupPath path) = .ok e) :
    ∃ b data, Beside base path b ∧ fs.entry? b = some (.file data) ∧ e = .file data := by
  by_cases hbeside : ∃ b, Beside base path b
  · obtain ⟨b, hbeside⟩ := hbeside
    rcases hr.copy b hbeside with hnone | ⟨data, hdata, -⟩
    · cases (hr.entryAt_copy_none hb hbeside hnone action follow).symm.trans h
    · obtain rfl := Except.ok.inj ((hr.entryAt_copy hb hbeside hdata action follow).symm.trans h)
      exact ⟨b, data, hbeside, hdata, rfl⟩
  · rw [entryAt] at h
    cases hlocate : fs.locate follow (backupPath path) with
    | ok place => exact absurd hlocate (hr.locate_copy_ne hb (not_exists.mp hbeside) follow place)
    | error fault =>
      rw [hlocate] at h
      cases h

/-- The file as somebody has left it. -/
lemma of_file (hb : Begins base path l) (hr : Reached base path l fs) (hworkDir : fs'.workDir = fs.workDir)
    (hentry : ∀ k, fs'.entry? k = if k = l then some (.file data) else fs.entry? k) (hdata : data.Permitted) :
    Reached base path l fs' where
  workDir := hworkDir.trans hr.workDir
  elsewhere k hk hbeside := by rw [hentry, if_neg hk, hr.elsewhere k hk hbeside]
  file := ⟨data, by rw [hentry, if_pos rfl], hdata⟩
  copy b hbeside := by
    have hne : b ≠ l := fun h => hb.not_beside (h ▸ hbeside)
    rw [hentry, if_neg hne]
    exact hr.copy b hbeside

/-- The backup made, written or taken away. -/
lemma of_copy (hb : Begins base path l) (hr : Reached base path l fs) (hbeside : Beside base path b)
    (hworkDir : fs'.workDir = fs.workDir) {e : Option Entry}
    (he : e = none ∨ ∃ data : FileData, e = some (.file data) ∧ data.Permitted)
    (hentry : ∀ k, fs'.entry? k = if k = b then e else fs.entry? k) : Reached base path l fs' where
  workDir := hworkDir.trans hr.workDir
  elsewhere k hk hnot := by
    have hne : k ≠ b := fun h => hnot (h ▸ hbeside)
    rw [hentry, if_neg hne, hr.elsewhere k hk hnot]
  file := by
    have hne : l ≠ b := fun h => hb.not_beside (h ▸ hbeside)
    rw [hentry, if_neg hne]
    exact hr.file
  copy b' hbeside' := by
    obtain rfl := hbeside.unique hbeside'
    rw [hentry, if_pos rfl]
    exact he

/-- Nothing is below the backup, so removing it removes nothing else. -/
lemma entry?_erase_copy (hb : Begins base path l) (hr : Reached base path l fs) (hbeside : Beside base path b)
    (k : Location) : entry? (fs.erase b) k = if k = b then none else fs.entry? k := by
  rw [entry?_erase fs hbeside.ne_nil]
  by_cases hk : k = b
  · subst hk
    simp
  rw [if_neg hk]
  split
  · next hbelow =>
    have hbase : ∀ e, base.entry? k ≠ some e := fun e he => by
      cases hbeside.missing.symm.trans (hb.sound.above hbelow (Ne.symm hk) he)
    have hl : k ≠ l := by
      rintro rfl
      obtain ⟨data, hfile⟩ := hb.file
      exact hbase _ hfile
    have hnot : ¬ Beside base path k := fun h => hk (hbeside.unique h)
    rw [hr.elsewhere k hl hnot]
    exact (Option.eq_none_iff_forall_ne_some.mpr hbase).symm
  · rfl

lemma replaceFile_path (hb : Begins base path l) (hr : Reached base path l fs)
    (h : fs.replaceFile path content mode = .ok fs') : fs' = fs.store l content mode := by
  unfold replaceFile at h
  dsimp only at h
  split at h
  · cases h
  · cases h
  · split_ifs at h
    rw [hr.locate_path hb] at h
    dsimp only at h
    split_ifs at h
    exact (Except.ok.inj h).symm

end Reached

/-- Whether files can be created beside the file, with names as long as that of its backup. -/
def Writable (base : FileSystem) (path : Bytes) : Prop :=
  ∃ dir, base.locate true (Path.dir path) = .ok (.found dir) ∧ base.isDirectory dir = true ∧
    (∃ e, base.entry? dir = some e) ∧
    (Path.base (backupPath path)).length + temporaryDigits + 6 ≤ maxNameLength

namespace Reached

/-- Where there is no backup, one can only be made where it belongs, and only where files can be created. -/
lemma replaceFile_copy (hb : Begins base path l) (hr : Reached base path l fs)
    (hnone : ∀ b, Beside base path b → fs.entry? b = none)
    (h : fs.replaceFile (backupPath path) content mode = .ok fs') :
    Writable base path ∧ ∃ b, Beside base path b ∧ fs' = fs.store b content mode := by
  have hbase := hr.compatible_base hb hnone
  unfold replaceFile at h
  dsimp only at h
  rw [dir_backupPath] at h
  split at h
  · cases h
  · cases h
  · next dir hdir =>
    split_ifs at h with hnot hlong hgone
    simp only [Bool.not_eq_true', Bool.not_eq_false] at hnot
    obtain ⟨e, he⟩ := Option.ne_none_iff_exists'.mp (by simpa using hgone)
    obtain ⟨e', he', -⟩ := hbase.entry dir e he
    refine ⟨⟨dir, hbase.locate_found hdir, (hbase.isDirectory dir).trans hnot, ⟨e', he'⟩, Nat.not_lt.mp hlong⟩, ?_⟩
    by_cases hbeside : ∃ b, Beside base path b
    · obtain ⟨b, hbeside⟩ := hbeside
      refine ⟨b, hbeside, ?_⟩
      obtain ⟨dir', name, hlocate, rfl⟩ := hbeside
      rw [hr.locate_copy hb hlocate, atPlace, hnone _ ⟨dir', name, hlocate, rfl⟩] at h
      exact (Except.ok.inj h).symm
    · split at h
      · cases h
      · next hlocate => exact absurd hlocate (hr.locate_copy_ne hb (not_exists.mp hbeside) _ _)
      · next hlocate => exact absurd hlocate (hr.locate_copy_ne hb (not_exists.mp hbeside) _ _)

/-- Where a backup could be made, the file can be written. -/
lemma replaceFile_path_ok (hb : Begins base path l) (hr : Reached base path l fs) (hw : Writable base path)
    (content : Bytes) (mode : Nat) : fs.replaceFile path content mode = .ok (fs.store l content mode) := by
  obtain ⟨dir, hlocate, hdir, ⟨e, he⟩, hlen⟩ := hw
  have hc := hr.compatible hb
  obtain ⟨e', he', -⟩ := hc.entry dir e he
  obtain ⟨data, hfile⟩ := hb.file
  have hdir' : fs.isDirectory dir = true := (hc.isDirectory dir).trans hdir
  have hl : fs.isDirectory l = false := (hc.isDirectory l).trans (hb.sound.not_isDirectory hfile)
  have hshort : ¬ maxNameLength < (Path.base path).length + temporaryDigits + 6 := by
    have := length_base_le hb.getLast?_ne
    omega
  simp only [replaceFile, hc.locate_found hlocate, hdir', he', hr.locate_path hb, hl, hshort]
  rfl

end Reached
end Sidecar
end LosslessTree
