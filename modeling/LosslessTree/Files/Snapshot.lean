import LosslessTree.Digest.Sha256
import LosslessTree.Failure.Basic

/-! Reading files together with what they looked like, and replacing them only as long as they have
not changed since. -/
namespace LosslessTree

/-- Files, and how long work on them goes on. -/
structure FileSession where
  files : FileSystem
  cancellation : Cancellation := .never

/-- Work on files. What has been done stays done when a later step fails. -/
abbrev FileWork := ExceptT Failure (StateM FileSession)

/-- What a file looked like when it was read. -/
structure Snapshot where
  path : Bytes
  mode : Nat
  stamp : Stamp
  size : Nat
  sum : Bytes
  deriving DecidableEq, Repr

namespace FileWork

/-- Stops cancelled work. -/
def check (context : Bytes) : FileWork Unit := do
  let s ← get
  if s.cancellation.isDue then throw (Failure.cancelled.within context)
  set { s with cancellation := s.cancellation.next }

/-- A refused access, told by its path and the cause. -/
def classified (path : Bytes) (e : AccessError) : Failure :=
  let f := (Failure.ofAccess e).within path
  if e.fault = .notFound then f.under .notFound "file not found" else f

def isDirectoryFailure (path : Bytes) : Failure :=
  ⟨[.isDirectory], "path is a directory: " ++ path⟩

/-- The content of a file and a snapshot of it. -/
def read (path : Bytes) : FileWork (Bytes × Snapshot) := do
  check ("read " ++ path)
  match (← get).files.stat path with
  | .error e => throw (classified path e)
  | .ok (.file data) =>
    pure (data.content, ⟨path, data.mode, data.stamp, data.content.length, Sha256.digest data.content⟩)
  | .ok _ => throw (isDirectoryFailure path)

/-- Whether a file differs from a snapshot of it. A file that is gone does. -/
def changed (snapshot : Snapshot) : FileWork Bool := do
  check ("check " ++ snapshot.path)
  match (← get).files.stat snapshot.path with
  | .error e => if e.fault = .notFound then pure true else throw (classified snapshot.path e)
  | .ok (.file data) =>
    pure (data.content.length != snapshot.size || data.stamp != snapshot.stamp ||
      Sha256.digest data.content != snapshot.sum)
  | .ok _ => pure true

/-- Replaces a file in one step; a mode of zero stands for the default. -/
def writeAtomic (path content : Bytes) (mode : Nat) : FileWork Unit := do
  check ("write " ++ path)
  let s ← get
  let mode := if mode = 0 then FileSystem.defaultMode else mode % 0o1000
  match s.files.replaceFile path content mode with
  | .ok files => set { s with files := files }
  | .error (step, e) => throw ((Failure.ofAccess e).within step.name)

/-- Writes a file unless it already holds the content; tells whether it has written. -/
def writeIfChanged (path content : Bytes) (mode : Nat) : FileWork Bool := do
  match (← get).files.readFile path with
  | .ok found =>
    if found = content then pure false
    else
      writeAtomic path content mode
      pure true
  | .error e =>
    if e.fault ≠ .notFound then throw (classified path e)
    writeAtomic path content mode
    pure true

def staleFailure (path : Bytes) : Failure := ⟨[.stale], "file changed since it was read: " ++ path⟩

/-- Writes over a file that still is as in the snapshot, with the mode it had. -/
def writeSnapshot (snapshot : Snapshot) (content : Bytes) : FileWork Bool := do
  if ← changed snapshot then throw (staleFailure snapshot.path)
  writeIfChanged snapshot.path content snapshot.mode

def noSnapshot : Failure := ⟨[.noSnapshot], "nil snapshot"⟩

end FileWork
end LosslessTree
