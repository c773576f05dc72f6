import LosslessTree.Files.Backup
import Mathlib.Tactic.Common

/-! What calls do to files: reading, writing over a snapshot, backing up and restoring. Each of them replaces
a file or changes nothing, whenever it is cancelled. -/
namespace LosslessTree

namespace FileWork

variable {α β : Type} {path content : Bytes} {s s' : FileSession} {data : FileData} {mode : Nat}

/-- What work comes to, and how it leaves the session. -/
def runOn (w : FileWork α) (s : FileSession) : Except Failure α × FileSession := (ExceptT.run w).run s

lemma runOn_bind (w : FileWork α) (next : α → FileWork β) (s : FileSession) :
    runOn (w >>= next) s = match runOn w s with
      | (.ok a, s') => runOn (next a) s'
      | (.error f, s') => (.error f, s') := by
  change (match runOn w s with | (r, s') => StateT.run (ExceptT.bindCont next r) s') = _
  rcases runOn w s with ⟨_ | a, s'⟩ <;> rfl

lemma runOn_tryCatch (w : FileWork α) (handle : Failure → FileWork α) (s : FileSession) :
    runOn (tryCatch w handle) s = match runOn w s with
      | (.ok a, s') => (.ok a, s')
      | (.error f, s') => runOn (handle f) s' := by
  rcases h : runOn w s with ⟨_ | a, s'⟩
  all_goals
    change StateT.run (m := Id) w s = _ at h
    simp only [runOn, tryCatch, tryCatchThe, MonadExceptOf.tryCatch, ExceptT.tryCatch, ExceptT.run_mk,
      StateT.run_bind, h]
    rfl

lemma runOn_pure (a : α) (s : FileSession) : runOn (pure a) s = (.ok a, s) := rfl

lemma runOn_throw (f : Failure) (s : FileSession) : runOn (throw f : FileWork α) s = (.error f, s) := rfl

lemma runOn_get (s : FileSession) : runOn get s = (.ok s, s) := rfl

lemma runOn_set (s s' : FileSession) : runOn (set s') s = (.ok ⟨⟩, s') := rfl

lemma runOn_adapt (f : Failure → Failure) (w : FileWork α) (s : FileSession) :
    runOn (w.adapt f) s = ((runOn w s).1.mapError f, (runOn w s).2) := rfl

lemma runOn_check (context : Bytes) (s : FileSession) : runOn (check context) s =
    if s.cancellation.isDue then (.error (Failure.cancelled.within context), s)
    else (.ok ⟨⟩, { s with cancellation := s.cancellation.next }) := by
  simp only [check, runOn_bind, runOn_get]
  split <;> rfl

/-- What a file looks like. -/
def snapshotOf (path : Bytes) (data : FileData) : Snapshot :=
  ⟨path, data.mode, data.stamp, data.content.length, Sha256.digest data.content⟩

lemma runOn_read (path : Bytes) (s : FileSession) : runOn (read path) s =
    if s.cancellation.isDue then (.error (Failure.cancelled.within ("read " ++ path)), s)
    else (match s.files.stat path with
      | .error e => .error (classified path e)
      | .ok (.file data) => .ok (data.content, snapshotOf path data)
      | .ok _ => .error (isDirectoryFailure path), { s with cancellation := s.cancellation.next }) := by
  cases hdue : s.cancellation.isDue with
  | true => simp [read, runOn_bind, runOn_check, hdue]
  | false =>
    simp only [read, runOn_bind, runOn_check, runOn_get, hdue, Bool.false_eq_true, if_false]
    rcases s.files.stat path with e | (data | _ | target) <;> rfl

lemma runOn_changed (snapshot : Snapshot) (s : FileSession) : runOn (changed snapshot) s =
    if s.cancellation.isDue then (.error (Failure.cancelled.within ("check " ++ snapshot.path)), s)
    else (match s.files.stat snapshot.path with
      | .error e => if e.fault = .notFound then .ok true else .error (classified snapshot.path e)
      | .ok (.file data) => .ok (data.content.length != snapshot.size || data.stamp != snapshot.stamp ||
          Sha256.digest data.content != snapshot.sum)
      | .ok _ => .ok true, { s with cancellation := s.cancellation.next }) := by
  cases hdue : s.cancellation.isDue with
  | true => simp [changed, runOn_bind, runOn_check, hdue]
  | false =>
    simp only [changed, runOn_bind, runOn_check, runOn_get, hdue, Bool.false_eq_true, if_false]
    rcases s.files.stat snapshot.path with e | (data | _ | target)
    · dsimp only
      split <;> rfl
    · rfl
    · rfl
    · rfl

/-- The mode a file is written with. -/
def writtenMode (mode : Nat) : Nat := if mode = 0 then FileSystem.defaultMode else mode % 0o1000

lemma runOn_writeAtomic (path content : Bytes) (mode : Nat) (s : FileSession) :
    runOn (writeAtomic path content mode) s =
      if s.cancellation.isDue then (.error (Failure.cancelled.within ("write " ++ path)), s)
      else match s.files.replaceFile path content (writtenMode mode) with
        | .ok files => (.ok ⟨⟩, ⟨files, s.cancellation.next⟩)
        | .error (step, e) =>
          (.error ((Failure.ofAccess e).within step.name), { s with cancellation := s.cancellation.next }) := by
  cases hdue : s.cancellation.isDue with
  | true => simp [writeAtomic, runOn_bind, runOn_check, hdue]
  | false =>
    simp only [writeAtomic, runOn_bind, runOn_check, runOn_get, hdue, Bool.false_eq_true, if_false, writtenMode]
    rcases s.files.replaceFile path content (if mode = 0 then _ else _) with ⟨step, e⟩ | files <;> rfl

/-- A write replaces the file, or it fails and changes nothing. -/
lemma writeAtomic_cases (path content : Bytes) (mode : Nat) (s : FileSession) :
    (∃ f s', runOn (writeAtomic path content mode) s = (.error f, s') ∧ s'.files = s.files) ∨
      ∃ s', runOn (writeAtomic path content mode) s = (.ok ⟨⟩, s') ∧
        s.files.replaceFile path content (writtenMode mode) = .ok s'.files := by
  rw [runOn_writeAtomic]
  split
  · exact .inl ⟨_, _, rfl, rfl⟩
  · split
    · next files hfiles => exact .inr ⟨_, rfl, hfiles⟩
    · exact .inl ⟨_, _, rfl, rfl⟩

/-- So does a write that looks first whether it is needed. -/
lemma writeIfChanged_cases (path content : Bytes) (mode : Nat) (s : FileSession) :
    (runOn (writeIfChanged path content mode) s).2.files = s.files ∨
      s.files.replaceFile path content (writtenMode mode) =
        .ok (runOn (writeIfChanged path content mode) s).2.files := by
  have hwrite : (runOn (do writeAtomic path content mode; pure true) s).2.files = s.files ∨
      s.files.replaceFile path content (writtenMode mode) =
        .ok (runOn (do writeAtomic path content mode; pure true) s).2.files := by
    rw [runOn_bind]
    rcases writeAtomic_cases path content mode s with ⟨f, s', hrun, hfiles⟩ | ⟨s', hrun, hfiles⟩
    · rw [hrun]
      exact .inl hfiles
    · rw [hrun]
      exact .inr hfiles
  simp only [writeIfChanged, runOn_bind, runOn_get]
  cases s.files.readFile path with
  | ok found =>
    by_cases hsame : found = content
    · exact .inl (by simp [hsame, runOn_pure])
    · simpa [hsame] using hwrite
  | error e =>
    by_cases hfault : e.fault = .notFound
    · simpa [hfault] using hwrite
    · exact .inl (by simp [hfault, runOn_throw])

/-- Looking changes nothing. What has not changed since a snapshot still has its digest. -/
lemma changed_cases (snapshot : Snapshot) (s : FileSession) :
    (runOn (changed snapshot) s).2.files = s.files ∧
      ((runOn (changed snapshot) s).1 = .ok false →
        ∃ data, s.files.stat snapshot.path = .ok (.file data) ∧ Sha256.digest data.content = snapshot.sum) := by
  rw [runOn_changed]
  split
  · exact ⟨rfl, nofun⟩
  refine ⟨rfl, fun h => ?_⟩
  cases hstat : s.files.stat snapshot.path with
  | error e =>
    rw [hstat] at h
    dsimp only at h
    split at h <;> cases h
  | ok e =>
    rw [hstat] at h
    cases e with
    | directory => cases h
    | link target => cases h
    | file data =>
      simp only [Except.ok.injEq, Bool.or_eq_false_iff, bne_eq_false_iff_eq] at h
      exact ⟨data, rfl, h.2⟩

/-- Over a snapshot only what has the digest of the snapshot is written. -/
lemma writeSnapshot_cases (snapshot : Snapshot) (content : Bytes) (s : FileSession) :
    (runOn (writeSnapshot snapshot content) s).2.files = s.files ∨
      ∃ data, s.files.stat snapshot.path = .ok (.file data) ∧ Sha256.digest data.content = snapshot.sum ∧
        s.files.replaceFile snapshot.path content (writtenMode snapshot.mode) =
          .ok (runOn (writeSnapshot snapshot content) s).2.files := by
  obtain ⟨hfiles, hunchanged⟩ := changed_cases snapshot s
  rw [writeSnapshot, runOn_bind]
  rcases hchanged : runOn (changed snapshot) s with ⟨f | changed, s'⟩
  · rw [hchanged] at hfiles
    exact .inl hfiles
  · rw [hchanged] at hfiles hunchanged
    cases changed with
    | true => exact .inl hfiles
    | false =>
      obtain ⟨data, hstat, hsum⟩ := hunchanged rfl
      simp only [Bool.false_eq_true, if_false]
      rcases writeIfChanged_cases snapshot.path content snapshot.mode s' with hsame | hreplace
      · exact .inl (hsame.trans hfiles)
      · rw [hfiles] at hreplace
        exact .inr ⟨data, hstat, hsum, hreplace⟩

/-- What has another digest than the snapshot is stale. -/
lemma writeSnapshot_stale {snapshot : Snapshot} {fs : FileSystem}
    (hstat : fs.stat snapshot.path = .ok (.file data)) (hsum : Sha256.digest data.content ≠ snapshot.sum)
    (content : Bytes) : runOn (writeSnapshot snapshot content) ⟨fs, .never⟩ =
      (.error (staleFailure snapshot.path), ⟨fs, .never⟩) := by
  simp [writeSnapshot, runOn_bind, runOn_changed, runOn_throw, hstat, hsum]

/-- What is read is what stands there, and reading changes nothing. -/
lemma read_cases (path : Bytes) (s : FileSession) :
    (∃ f s', runOn (read path) s = (.error f, s') ∧ s'.files = s.files) ∨
      ∃ data s', runOn (read path) s = (.ok (data.content, snapshotOf path data), s') ∧
        s'.files = s.files ∧ s.files.stat path = .ok (.file data) := by
  rw [runOn_read]
  split
  · exact .inl ⟨_, _, rfl, rfl⟩
  · cases s.files.stat path with
    | error e => exact .inl ⟨_, _, rfl, rfl⟩
    | ok e =>
      cases e with
      | directory => exact .inl ⟨_, _, rfl, rfl⟩
      | link target => exact .inl ⟨_, _, rfl, rfl⟩
      | file data => exact .inr ⟨data, _, rfl, rfl, rfl⟩

/-- A backup is made of a file that has none, or nothing changes. -/
lemma backup_cases (path : Bytes) (s : FileSession) :
    ((runOn (backup path) s).1 ≠ .ok true ∧ (runOn (backup path) s).2.files = s.files) ∨
      (∃ e, s.files.stat (backupPath path) = .error e) ∧
        ∃ data, s.files.stat path = .ok (.file data) ∧
          s.files.replaceFile (backupPath path) data.content (writtenMode data.mode) =
            .ok (runOn (backup path) s).2.files := by
  simp only [backup, runOn_bind, runOn_get]
  cases hcopy : s.files.stat (backupPath path) with
  | ok e => exact .inl ⟨nofun, rfl⟩
  | error e =>
    by_cases hfault : e.fault = .notFound
    · simp only [hfault, ne_eq, not_true_eq_false, if_false, runOn_bind, runOn_adapt]
      rcases read_cases path s with ⟨f, s', hread, hfiles⟩ | ⟨data, s', hread, hfiles, hstat⟩
      · rw [hread]
        exact .inl ⟨nofun, hfiles⟩
      · rw [hread, ← hfiles]
        rcases writeAtomic_cases (backupPath path) data.content data.mode s' with
          ⟨f, s'', hwrite, hsame⟩ | ⟨s'', hwrite, hreplace⟩
        · simp only [snapshotOf, hwrite]
          exact .inl ⟨nofun, hsame⟩
        · simp only [snapshotOf, hwrite]
          exact .inr ⟨⟨e, rfl⟩, data, hfiles ▸ hstat, hreplace⟩
    · simp [hfault, runOn_throw]

lemma backup_ok {fs files : FileSystem} {e : AccessError} (hnone : fs.stat (backupPath path) = .error e)
    (hfault : e.fault = .notFound) (hstat : fs.stat path = .ok (.file data))
    (hreplace : fs.replaceFile (backupPath path) data.content (writtenMode data.mode) = .ok files) :
    runOn (backup path) ⟨fs, .never⟩ = (.ok true, ⟨files, .never⟩) := by
  have hread : runOn (read path) ⟨fs, .never⟩ = (.ok (data.content, snapshotOf path data), ⟨fs, .never⟩) := by
    simp [runOn_read, hstat]
  have hwrite : runOn (writeAtomic (backupPath path) data.content data.mode) ⟨fs, .never⟩ =
      (.ok ⟨⟩, ⟨files, .never⟩) := by
    simp [runOn_writeAtomic, hreplace]
  simp only [backup, runOn_bind, runOn_get, hnone, hfault, ne_eq, not_true_eq_false, if_false, runOn_adapt, hread,
    snapshotOf, hwrite, Except.mapError, runOn_pure]

/-- A file is restored from its backup, which goes then, or nothing changes. -/
lemma restore_cases (path : Bytes) (s : FileSession) :
    (runOn (restore path) s).2.files = s.files ∨
      ∃ data files, s.files.stat (backupPath path) = .ok (.file data) ∧
        s.files.replaceFile path data.content (writtenMode data.mode) = .ok files ∧
        ((runOn (restore path) s).2.files = files ∨
          files.remove (backupPath path) = .ok (runOn (restore path) s).2.files) := by
  simp only [restore, runOn_bind, runOn_tryCatch]
  rcases read_cases (backupPath path) s with ⟨f, s', hread, hfiles⟩ | ⟨data, s', hread, hfiles, hstat⟩
  · rw [hread]
    by_cases hgone : f.has .notFound = true
    · simp only [hgone, if_true, runOn_pure]
      exact .inl hfiles
    · simp only [hgone]
      exact .inl hfiles
  · rw [hread, ← hfiles]
    simp only [runOn_pure, runOn_bind, runOn_adapt, snapshotOf]
    rcases writeAtomic_cases path data.content data.mode s' with
      ⟨f, s'', hwrite, hsame⟩ | ⟨s'', hwrite, hreplace⟩
    · rw [hwrite]
      exact .inl hsame
    · rw [hwrite]
      refine .inr ⟨data, s''.files, hfiles ▸ hstat, hreplace, ?_⟩
      simp only [Except.mapError, runOn_get]
      cases hremove : s''.files.remove (backupPath path) with
      | ok files => exact .inr rfl
      | error e => exact .inl rfl

lemma restore_ok {fs files files' : FileSystem} (hstat : fs.stat (backupPath path) = .ok (.file data))
    (hreplace : fs.replaceFile path data.content (writtenMode data.mode) = .ok files)
    (hremove : files.remove (backupPath path) = .ok files') :
    runOn (restore path) ⟨fs, .never⟩ = (.ok true, ⟨files', .never⟩) := by
  have hread : runOn (read (backupPath path)) ⟨fs, .never⟩ =
      (.ok (data.content, snapshotOf (backupPath path) data), ⟨fs, .never⟩) := by
    simp [runOn_read, hstat]
  have hwrite : runOn (writeAtomic path data.content data.mode) ⟨fs, .never⟩ = (.ok ⟨⟩, ⟨files, .never⟩) := by
    simp [runOn_writeAtomic, hreplace]
  simp only [restore, runOn_bind, runOn_tryCatch, hread, runOn_pure, runOn_adapt, snapshotOf, hwrite,
    Except.mapError, runOn_get, hremove, runOn_set]

end FileWork
end LosslessTree
