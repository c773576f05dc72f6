import LosslessTree.Command.Reach

/-! The command line. The files that a command may look at are read first; what it has changed is written
back once it is done. -/
namespace LosslessTree.Outer

def textOf (b : Bytes) : String := (b.toString?).getD ""

def locationOf (path : String) : Location := Path.components (Path.clean (Bytes.ofString path))

/-- Adds what stands at an absolute path: a link with what it leads to, a directory maybe with all that is
not hidden below it. Whatever cannot be read is left out. -/
partial def add (deep : Bool) (files : FileSystem) (path : String) : IO FileSystem := do
  let location := locationOf path
  try
    let place := (← IO.FS.realPath "/") / path
    match (← place.symlinkMetadata).type with
    | .symlink =>
      let target ← IO.FS.realPath path
      let files := files.put location (.link (Bytes.ofString target.toString))
      if (files.entry? (locationOf target.toString)).isSome then pure files
      else add deep files target.toString
    | .dir =>
      let files := files.put location .directory
      if deep then
        (← place.readDir).foldlM (fun files e =>
          if Discovery.isHidden (Bytes.ofString e.fileName) then pure files
          else add deep files e.path.toString) files
      else pure files
    | _ =>
      let content ← IO.FS.readBinFile path
      pure (files.put location (.file ⟨content.toList, FileSystem.defaultMode, .outside 0⟩))
  catch _ => pure files

/-- The files that a command line may look at. -/
def gather (workDir : String) (reach : Command.Reach) : IO FileSystem := do
  let start : FileSystem := { workDir := locationOf workDir }
  let absolute (path : Bytes) : String :=
    textOf (if Path.isAbsolute path then path else Path.join [Bytes.ofString workDir, path])
  let files := start.put start.workDir .directory
  let files ← reach.looked.foldlM (fun files path => do
    let path := absolute path
    let files ← add false files (textOf (Path.dir (Bytes.ofString path)))
    add false files path) files
  reach.walked.foldlM (fun files path => add true files (absolute path)) files

/-- Writes the files that have changed, and removes those that are gone. -/
def store (before after : FileSystem) : IO Unit := do
  for (path, data) in after.files do
    let old := before.files.lookup path
    if old.map FileData.content != some data.content then
      IO.FS.writeBinFile (textOf path) ⟨data.content.toArray⟩
  for (path, _) in before.files do
    if (after.files.lookup path).isNone then IO.FS.removeFile (textOf path)

def readEnvironment : IO Environment := do
  let names := "HOME" :: "XDG_CONFIG_HOME" :: Environment.known.map Environment.Variable.name
  names.filterMapM fun name => do
    pure ((← IO.getEnv name).map fun value => (Bytes.ofString name, Bytes.ofString value))

partial def readAll (stream : IO.FS.Stream) (read : ByteArray) : IO Bytes := do
  let more ← stream.read 65536
  if more.isEmpty then pure read.toList else readAll stream (read ++ more)

def run (args : List String) : IO UInt32 := do
  let arguments := args.map Bytes.ofString
  let environment ← readEnvironment
  let workDir := (← IO.currentDir).toString
  let files ← gather workDir (Command.reach environment (Bytes.ofString workDir) arguments)
  let input ←
    if Command.readsInput arguments then readAll (← IO.getStdin) .empty else pure []
  let shell : Shell :=
    { files, environment, input := .ok input, logger := { name := Command.programName } }
  let (code, shell) := shell.runProgram arguments
  store files shell.files
  (← IO.getStdout).write ⟨shell.output.toArray⟩
  (← IO.getStderr).write ⟨shell.errors.toArray⟩
  pure code.number.toUInt32

end LosslessTree.Outer

def main (args : List String) : IO UInt32 := LosslessTree.Outer.run args
