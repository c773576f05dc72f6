import LosslessTree.Files.Snapshot

/-! Backups: a copy beside a file, made once and kept until it is restored. -/
namespace LosslessTree.FileWork

def backupPath (path : Bytes) : Bytes := path ++ ".syntree.bak"

/-- Copies a file to its backup unless there is one; tells whether it has. -/
def backup (path : Bytes) : FileWork Bool := do
  let copy := backupPath path
  match (← get).files.stat copy with
  | .ok _ => pure false
  | .error e =>
    if e.fault ≠ .notFound then throw (classified copy e)
    let make : FileWork Unit := do
      let (content, snapshot) ← read path
      writeAtomic copy content snapshot.mode
    make.adapt fun f => f.within "backup"
    pure true

/-- Moves a backup back into place; tells whether there was one. -/
def restore (path : Bytes) : FileWork Bool := do
  let copy := backupPath path
  let found : FileWork (Option (Bytes × Snapshot)) := do
    try
      pure (some (← read copy))
    catch f =>
      if f.has .notFound then pure none else throw (f.within "restore")
  match ← found with
  | none => pure false
  | some (content, snapshot) =>
    (writeAtomic path content snapshot.mode).adapt fun f => f.within "restore"
    let s ← get
    match s.files.remove copy with
    | .ok files =>
      set { s with files := files }
      pure true
    | .error e => throw ((Failure.ofAccess e).within "remove backup")

end LosslessTree.FileWork
