import LosslessTree.Discovery.Glob
import LosslessTree.Failure.Basic
import LosslessTree.Runner.Options

/-! Which files a run is about. Directories are walked for files with a known extension; hidden
entries are passed over. No directory is walked twice, whichever way it is reached, so links that lead
back do no harm. -/
namespace LosslessTree.Discovery

/-- What does not change during a search. -/
structure Scope where
  files : FileSystem
  /-- Where relative paths and patterns start. -/
  workDir : Bytes
  extensions : List Bytes
  options : RunOptions

structure Search where
  /-- The files found, the latest first. -/
  found : List Bytes := []
  /-- The directories that have been walked, by their paths without links. -/
  visited : List Bytes := []
  cancellation : Cancellation := .never

abbrev Searching := ExceptT Failure (StateM Search)

namespace Scope

def isExcluded (s : Scope) (path : Bytes) : Bool :=
  Glob.anySelects s.options.excludes (Path.relativeTo s.workDir path)

/-- Whether a file in a walked directory is taken. -/
def isWanted (s : Scope) (path : Bytes) : Bool :=
  s.extensions.contains (Path.lower (Path.extension path)) && !s.isExcluded path &&
    (s.options.includes.isEmpty ||
      Glob.anySelects s.options.includes (Path.relativeTo s.workDir path))

end Scope

def isHidden (path : Bytes) : Bool := (Path.base path).head? == some 0x2E

def check : Searching Unit := do
  let s ← get
  if s.cancellation.isDue then throw Failure.cancelled
  set { s with cancellation := s.cancellation.next }

/-- Takes a file, once. -/
def add (path : Bytes) : Searching Unit := modify fun s =>
  if s.found.contains path then s else { s with found := path :: s.found }

/-- Marks a directory as walked; tells whether it was new. -/
def visit (scope : Scope) (dir : Bytes) : Searching Bool := do
  let key := (scope.files.canonical? dir).getD dir
  let s ← get
  if s.visited.contains key then pure false
  else
    set { s with visited := key :: s.visited }
    pure true

/-- Walks what stands at a path below a root. The root itself may be hidden or excluded. The first
argument bounds how deep directories and links are nested. -/
def walkFrom (scope : Scope) : Nat → Bytes → Bytes → Searching Unit
  | 0, _, _ => pure ()
  | fuel + 1, root, path => do
    check
    let below := path != root
    match scope.files.lstat path with
    | .error e => throw (Failure.ofAccess e)
    | .ok .directory =>
      if below && (isHidden path || scope.isExcluded path) then pure ()
      else
        let new ← if below then visit scope path else pure true
        if new then
          (scope.files.namesAt path).forM fun name =>
            walkFrom scope fuel root (Path.join [path, name])
    | .ok (.file _) =>
      if !(below && isHidden path) && scope.isWanted path then add path
    | .ok (.link _) =>
      if below && isHidden path then pure ()
      else match scope.files.canonical? path with
        | none => pure ()
        | some target =>
          match scope.files.stat target with
          | .error _ => pure ()
          | .ok .directory =>
            if scope.options.followSymlinks then
              if ← visit scope target then
                (walkFrom scope fuel target target).adapt fun f =>
                  f.within ("walk directory " ++ target)
          | .ok _ => if scope.isWanted path then add path

/-- How deep a walk can go: every level is a new directory or a link to one. -/
def depthBound (files : FileSystem) : Nat := 2 * files.entries.length + 3

def walk (scope : Scope) (root : Bytes) : Searching Unit := do
  if ← visit scope root then
    (walkFrom scope (depthBound scope.files) root root).adapt fun f =>
      f.within ("walk directory " ++ root)

/-- Works off one input. -/
def input (scope : Scope) (text : Bytes) : Searching Unit := do
  check.adapt fun f => f.within "discovery cancelled"
  let path := if Path.isAbsolute text then Path.clean text else Path.join [scope.workDir, text]
  match scope.files.stat path with
  | .error e => throw ((Failure.ofAccess e).within ("stat " ++ text))
  | .ok e =>
    if e.isDirectory then walk scope path
    else if !scope.isExcluded path then add path

/-- The directory in which relative paths start. -/
def resolveWorkDir (files : FileSystem) (dir : Bytes) : Except Failure Bytes :=
  if dir.isEmpty then
    files.workingDirectory.mapError fun e => (Failure.ofAccess e).within "get working directory"
  else files.absolute dir |>.mapError fun e => (Failure.ofAccess e).within "resolve absolute path"

/-- The files of a run as sorted absolute paths, and what is left of the cancellation. -/
def discover (r : Registry) (files : FileSystem) (o : RunOptions) (c : Cancellation) :
    Except Failure (List Bytes) × Cancellation :=
  match resolveWorkDir files o.workingDir with
  | .error f => (.error (f.within "resolve working directory"), c)
  | .ok workDir =>
    let scope : Scope := ⟨files, workDir, o.extensions r, o⟩
    match (o.inputs.forM (input scope)).run { cancellation := c } with
    | (.ok (), s) => (.ok (Bytes.sort s.found), s.cancellation)
    | (.error f, s) => (.error f, s.cancellation)

end LosslessTree.Discovery
