import LosslessTree.Text.Path

/-! A file system as a value. Files are found by the names on the way from the root; links hold the
text of their target. -/
namespace LosslessTree

/-- Why an access is refused. -/
inductive AccessFault where
  | notFound | notDirectory | isDirectory | exists | nameTooLong | tooManyLinks | invalid
  deriving DecidableEq, Repr

def AccessFault.message : AccessFault → String
  | .notFound => "no such file or directory"
  | .notDirectory => "not a directory"
  | .isDirectory => "is a directory"
  | .exists => "file exists"
  | .nameTooLong => "file name too long"
  | .tooManyLinks => "too many levels of symbolic links"
  | .invalid => "invalid argument"

/-- A refused access: what was tried, and why it failed. -/
structure AccessError where
  action : Bytes
  fault : AccessFault
  deriving DecidableEq, Repr

def AccessError.message (e : AccessError) : Bytes := e.action ++ ": " ++ e.fault.message

/-- When a file was written last: at a time set from outside, or by one of our own writes, of which no
two happen at the same time. -/
inductive Stamp where
  | outside (seconds : Int)
  | own (count : Nat)
  deriving DecidableEq, Repr

structure FileData where
  content : Bytes
  /-- The permission bits. -/
  mode : Nat
  stamp : Stamp := .outside 0
  deriving DecidableEq, Repr

inductive Entry where
  | file (data : FileData)
  | directory
  | link (target : Bytes)
  deriving DecidableEq, Repr

def Entry.isDirectory : Entry → Bool
  | .directory => true
  | _ => false

/-- The names on the way from the root. -/
abbrev Location := List Bytes

def Location.text (l : Location) : Bytes := Path.separator :: Bytes.join [Path.separator] l

structure FileSystem where
  entries : List (Location × Entry) := []
  /-- Where relative paths start. -/
  workDir : Location := []
  /-- How many writes of our own there have been. -/
  writes : Nat := 0
  deriving DecidableEq, Repr

namespace FileSystem

def entry? (fs : FileSystem) (l : Location) : Option Entry :=
  if l.isEmpty then some .directory else fs.entries.lookup l

/-- Whether names can be looked up there. A working directory that has been removed still can be
asked, but holds nothing. -/
def isDirectory (fs : FileSystem) (l : Location) : Bool :=
  l = fs.workDir || (fs.entry? l).any Entry.isDirectory

def set (fs : FileSystem) (l : Location) (e : Entry) : FileSystem :=
  if (fs.entries.lookup l).isSome then
    { fs with entries := fs.entries.map fun (k, old) => (k, if k = l then e else old) }
  else { fs with entries := fs.entries ++ [(l, e)] }

/-- Removes an entry and all below it. -/
def erase (fs : FileSystem) (l : Location) : FileSystem :=
  { fs with entries := fs.entries.filter fun (k, _) => !l.isPrefixOf k }

/-- The directories above a location that are still missing are made. -/
def withParents (fs : FileSystem) (l : Location) : FileSystem :=
  (List.range l.length).foldl (fun fs n =>
    if (fs.entry? (l.take n)).isSome then fs else fs.set (l.take n) .directory) fs

/-- Puts an entry somewhere, with the directories above it. -/
def put (fs : FileSystem) (l : Location) (e : Entry) : FileSystem := (fs.withParents l).set l e

/-- The names in a directory, sorted. -/
def names (fs : FileSystem) (l : Location) : List Bytes :=
  Bytes.sort (fs.entries.filterMap fun (k, _) =>
    if k.length = l.length + 1 ∧ k.dropLast = l then k.getLast? else none)

/-- All files with their locations, in the order of their paths. -/
def files (fs : FileSystem) : List (Bytes × FileData) :=
  (fs.entries.filterMap fun (k, e) =>
    match e with
    | .file data => some (Location.text k, data)
    | _ => none).mergeSort fun a b => Bytes.le a.1 b.1

end FileSystem
end LosslessTree
