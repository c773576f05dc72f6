import LosslessTree.Command.Inspect
import LosslessTree.Edit.Batch
import LosslessTree.Edit.Tree

/-! The command that edits a file. Edits that stay inside tokens change the tree; others change the text,
which is parsed again. -/
namespace LosslessTree.Command

/-- The edits that the flags ask for: one range, or a batch in a file. -/
def requestedEdits (a : Arguments) : Job (List TextEdit) := do
  let file := a.text "edits"
  if file.isEmpty then
    match EditText.range (a.text "at") with
    | .error e => throw (Failure.ofUsage e.message)
    | .ok range => pure [⟨range, a.text "text"⟩]
  else
    match EditBatch.read (← Job.readFile "read edits" file) with
    | .error e => throw ⟨[.usage], e.message⟩
    | .ok edits => pure edits

/-- A text to edit; one from a file comes with a snapshot of it. -/
structure EditSource where
  path : Bytes
  content : Bytes
  snapshot : Option Snapshot := none

/-- What a text is called in messages. -/
def EditSource.name (s : EditSource) : Bytes := if s.path = inputPath then inputName else s.path

def readSource (path : Bytes) : Job EditSource := do
  if path = inputPath then pure ⟨path, ← Job.readInput, none⟩
  else
    let (content, snapshot) ← Job.onFiles (FileWork.read path)
    pure ⟨path, content, some snapshot⟩

/-- Whether an edit that a tree cannot take may still be made on its text. -/
def isTextualOnly : EditError → Bool
  | .spansTokens _ | .noToken _ | .tokenChanged .. => true
  | _ => false

/-- Applies edits to a text, and parses it again in its language. -/
def editText (session : Session) (source : EditSource) (language : Language) (edits : List TextEdit) :
    Job FileOutcome := do
  match TextEdit.applyText source.content edits with
  | .error e => throw (Failure.ofEditError e)
  | .ok text =>
    let outcome ← session.parseSource source.name text language.name
    match outcome.result with
    | .error e => throw (Failure.ofFileError e)
    | .ok _ => pure outcome

/-- Applies edits: to the tree where they fit into tokens that stay what they are, else to the text. -/
def applyEdits (session : Session) (source : EditSource) (before : FileOutcome) (language : Language)
    (tree : Tree) (edits : List TextEdit) (reparse : Bool) : Job FileOutcome := do
  if reparse then editText session source language edits
  else match TextEdit.applyAll tree edits (some language.relex?) with
    | .ok tree => pure { before with result := .ok tree }
    | .error e =>
      if isTextualOnly e then
        Job.log .debug "edit does not fit one token; parsing again"
          [⟨"path", source.path⟩, ⟨"error", e.message⟩]
        editText session source language edits
      else throw (Failure.ofEditError e)

/-- The tree of a file and the language it is in. -/
def parsedAs (o : FileOutcome) : Except FileError (Language × Tree) :=
  match o.result, o.language with
  | .error e, _ => .error e
  | .ok _, none => .error (.undetected o.path)
  | .ok tree, some language => .ok (language, tree)

/-- Writes an edited text over its file, unless the file has changed since it was read. -/
def writeBack (path : Bytes) (snapshot : Option Snapshot) (text : Bytes) (backup : Bool) : Job Unit := do
  if backup then
    let _ ← Job.onFiles (FileWork.backup path)
  let wrote ← match snapshot with
    | none => throw FileWork.noSnapshot
    | some snapshot => Job.onFiles (FileWork.writeSnapshot snapshot text)
  Job.log .info "edited" [⟨"path", path⟩, .ofBool "write" wrote]

/-- Puts a file back as it was before it was written with a backup. -/
def restore (path : Bytes) : Job Unit := do
  if path = inputPath then throw (Failure.ofUsage "--restore needs a file, not stdin")
  if ← Job.onFiles (FileWork.restore path) then
    Job.log .info "restored from backup" [⟨"path", path⟩]
  else throw (Failure.ofUsage ("no backup at " ++ FileWork.backupPath path))

/-- Edits a file once the configuration is known. -/
def editWith (a : Arguments) (path : Bytes) (session : Session) : Job Unit := do
  let edits ← requestedEdits a
  let source ← readSource path
  let before ← session.parseSource source.name source.content session.config.language
  match parsedAs before with
  | .error e => throw ((Failure.ofFileError e).under .parseFailures Failure.parseFailuresText)
  | .ok (language, tree) =>
    let after ← applyEdits session source before language tree edits (a.bool "reparse")
    let text := (after.tree?.map Tree.text).getD []
    Job.log .debug "applied edits"
      [⟨"path", path⟩, ⟨"edits", Bytes.ofNat edits.length⟩, ⟨"bytes", Bytes.ofNat text.length⟩]
    if a.bool "write" then writeBack path source.snapshot text (a.bool "backup")
    if a.bool "tree" then
      report "report tree"
        { color := session.colorMode, offsets := session.config.offsets
          maxDepth := session.config.maxDepth, workingDir := session.workDir }
        (.ofFiles [after])
    else if !a.bool "write" then
      (Job.print text).adapt fun f => f.within "write output"

def edit (a : Arguments) (path : Bytes) : Job Unit := do
  if a.bool "write" && path == inputPath then
    throw (Failure.ofUsage "--write needs a file, not stdin")
  let session ← Session.load a []
  if a.bool "restore" then restore path else editWith a path session

end LosslessTree.Command
