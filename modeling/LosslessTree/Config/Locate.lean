import LosslessTree.Config.Environment
import LosslessTree.Failure.Basic

/-! Where configuration files are looked for. -/
namespace LosslessTree.Config

/-- The names of configuration files of a project, the preferred one first. -/
def projectNames : List Bytes :=
  [".syntree.yml", ".syntree.yaml", ".syntree.json", "syntree.yml", "syntree.yaml"]

/-- Directories that mark the root of a repository. -/
def repositoryMarks : List Bytes := [".git", ".hg", ".svn"]

/-- The configuration file in a directory. -/
def fileIn? (files : FileSystem) (dir : Bytes) : Option Bytes :=
  (projectNames.map fun name => Path.join [dir, name]).find? files.hasFile

/-- Whether the search goes no higher than this directory. -/
def isBoundary (files : FileSystem) (home dir : Bytes) : Bool :=
  repositoryMarks.any (fun mark => files.hasDirectory (Path.join [dir, mark])) ||
    (!home.isEmpty && dir == home)

/-- A directory and those above it, the nearest first. -/
def ancestors (dir : Bytes) : List Bytes :=
  let parts := Path.components dir
  (List.range (parts.length + 1)).map fun n => Location.text (parts.take (parts.length - n))

/-- Looks into directories in turn, up to the first that ends the search. -/
def searchIn (files : FileSystem) (home : Bytes) :
    List Bytes → Cancellation → Except Failure (Option Bytes) × Cancellation
  | [], c => (.ok none, c)
  | dir :: rest, c =>
    if c.isDue then (.error (Failure.cancelled.within "context cancelled"), c)
    else match fileIn? files dir with
      | some path => (.ok (some path), c.next)
      | none =>
        if isBoundary files home dir then (.ok none, c.next) else searchIn files home rest c.next

/-- The configuration file of the project a directory belongs to: in that directory or the nearest one
above it, but not above the repository or the home directory. -/
def findProject (files : FileSystem) (env : Environment) (start : Bytes) (c : Cancellation) :
    Except Failure (Option Bytes) × Cancellation :=
  let dir : Except Failure Bytes :=
    if start.isEmpty then
      files.workingDirectory.mapError fun e => (Failure.ofAccess e).within "get working directory"
    else (files.absolute start).mapError fun e => (Failure.ofAccess e).within "resolve absolute path"
  match dir with
  | .error f => (.error f, c)
  | .ok dir => searchIn files ((env.value? "HOME").getD []) (ancestors dir) c

/-- The directory of the user's configuration; empty if nothing tells where it is. -/
def userDir (env : Environment) : Bytes :=
  match env.value? "XDG_CONFIG_HOME", env.value? "HOME" with
  | some dir, _ => Path.join [dir, "syntree"]
  | none, some home => Path.join [home, ".config", "syntree"]
  | none, none => []

def userNames : List Bytes := ["config.yaml", "config.yml"]

/-- The user's configuration file. -/
def findUser? (files : FileSystem) (env : Environment) : Option Bytes :=
  let dir := userDir env
  if dir.isEmpty then none
  else (userNames.map fun name => Path.join [dir, name]).find? files.hasFile

/-- The configuration files that were found. -/
structure Places where
  user : Option Bytes := none
  project : Option Bytes := none
  deriving DecidableEq, Repr

/-- Looks for configuration files, those of a project from a directory on. -/
def locate (files : FileSystem) (env : Environment) (start : Bytes) (c : Cancellation) :
    Except Failure Places × Cancellation :=
  if c.isDue then (.error (Failure.cancelled.within "context cancelled"), c)
  else
    let (project, c) := findProject files env start c.next
    (project.map fun project => ⟨findUser? files env, project⟩, c)

end LosslessTree.Config
