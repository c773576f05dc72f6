import LosslessTree.Files.Resolve

/-! Looking at, reading and writing files by their paths. -/
namespace LosslessTree.FileSystem

def refused {α : Type} (action path : Bytes) (fault : AccessFault) : Except AccessError α :=
  .error ⟨action ++ " " ++ path, fault⟩

/-- The entry at a path; a removed working directory still is a directory. -/
def entryAt (fs : FileSystem) (action : Bytes) (follow : Bool) (path : Bytes) :
    Except AccessError Entry :=
  match fs.locate follow path with
  | .ok (.found l) => .ok ((fs.entry? l).getD .directory)
  | .ok (.absent ..) => refused action path .notFound
  | .error fault => refused action path fault

/-- What a path stands for, links followed. -/
def stat (fs : FileSystem) (path : Bytes) : Except AccessError Entry := fs.entryAt "stat" true path

/-- What a path stands for, be it a link. -/
def lstat (fs : FileSystem) (path : Bytes) : Except AccessError Entry := fs.entryAt "lstat" false path

/-- Whether there is something at a path that is no directory. -/
def hasFile (fs : FileSystem) (path : Bytes) : Bool :=
  match fs.stat path with
  | .ok e => !e.isDirectory
  | .error _ => false

def hasDirectory (fs : FileSystem) (path : Bytes) : Bool :=
  match fs.stat path with
  | .ok e => e.isDirectory
  | .error _ => false

def readFile (fs : FileSystem) (path : Bytes) : Except AccessError Bytes :=
  match fs.entryAt "open" true path with
  | .ok (.file data) => .ok data.content
  | .ok _ => refused "read" path .isDirectory
  | .error e => .error e

/-- The names in the directory at a path, sorted. -/
def namesAt (fs : FileSystem) (path : Bytes) : List Bytes :=
  match fs.locate true path with
  | .ok (.found l) => fs.names l
  | _ => []

def defaultMode : Nat := 0o644

/-- Puts a file with its next own stamp somewhere. -/
def store (fs : FileSystem) (l : Location) (content : Bytes) (mode : Nat) : FileSystem :=
  { fs.set l (.file ⟨content, mode, .own fs.writes⟩) with writes := fs.writes + 1 }

/-- Opens a file for writing and writes it; with `fresh` it must not exist yet. An existing file keeps
its mode. -/
def writeFile (fs : FileSystem) (path content : Bytes) (fresh : Bool) : Except AccessError FileSystem :=
  match fs.locate (!fresh) path with
  | .error fault => refused "open" path fault
  | .ok (.absent dir name) =>
    if (fs.entry? dir).isNone then refused "open" path .notFound
    else .ok (fs.store (dir ++ [name]) content defaultMode)
  | .ok (.found l) =>
    if fresh then refused "open" path .exists
    else match fs.entry? l with
      | some (.file data) => .ok (fs.store l content data.mode)
      | _ => refused "open" path .isDirectory

/-- The name of a temporary file beside another one; `N` stands for a number. -/
def temporaryPath (path : Bytes) : Bytes :=
  let dir := Path.dir path
  (if dir.getLast? == some Path.separator then dir else dir ++ [Path.separator]) ++
    ("." ++ Path.base path ++ ".N.tmp")

/-- How many digits the number in a temporary name has. -/
def temporaryDigits : Nat := 10

/-- How replacing a file can fail. -/
inductive ReplaceStep where
  | create | rename
  deriving DecidableEq, Repr

def ReplaceStep.name : ReplaceStep → String
  | .create => "create temp file"
  | .rename => "rename temp file"

/-- Replaces a file in one step: the content goes to a temporary file in the same directory, which then
takes the name of the file. -/
def replaceFile (fs : FileSystem) (path content : Bytes) (mode : Nat) :
    Except (ReplaceStep × AccessError) FileSystem :=
  let temporary := temporaryPath path
  let create (fault : AccessFault) : Except (ReplaceStep × AccessError) FileSystem :=
    .error (.create, ⟨"open " ++ temporary, fault⟩)
  let rename (fault : AccessFault) : Except (ReplaceStep × AccessError) FileSystem :=
    .error (.rename, ⟨"rename " ++ temporary ++ " " ++ path, fault⟩)
  match fs.locate true (Path.dir path) with
  | .error fault => create fault
  | .ok (.absent ..) => create .notFound
  | .ok (.found dir) =>
    if !fs.isDirectory dir then create .notDirectory
    else if maxNameLength < (Path.base path).length + temporaryDigits + 6 then create .nameTooLong
    else if (fs.entry? dir).isNone then create .notFound
    else match fs.locate false path with
      | .error fault => rename fault
      | .ok (.absent dir name) => .ok (fs.store (dir ++ [name]) content mode)
      | .ok (.found l) =>
        if fs.isDirectory l then rename .exists else .ok (fs.store l content mode)

/-- Removes what stands at a path, be it a link. -/
def remove (fs : FileSystem) (path : Bytes) : Except AccessError FileSystem :=
  match fs.locate false path with
  | .error fault => refused "remove" path fault
  | .ok (.absent ..) => refused "remove" path .notFound
  | .ok (.found l) => .ok (fs.erase l)

/-- The working directory, unless it has been removed. -/
def workingDirectory (fs : FileSystem) : Except AccessError Bytes :=
  if (fs.entry? fs.workDir).isSome then .ok fs.workDir.text else .error ⟨"getwd", .notFound⟩

/-- The path from the root. -/
def absolute (fs : FileSystem) (path : Bytes) : Except AccessError Bytes :=
  if Path.isAbsolute path then .ok (Path.clean path)
  else fs.workingDirectory.map fun dir => Path.join [dir, path]

end LosslessTree.FileSystem
