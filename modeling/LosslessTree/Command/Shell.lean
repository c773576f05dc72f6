import LosslessTree.Command.Help
import LosslessTree.Files.Backup
import LosslessTree.Logging.Line
import LosslessTree.Config.Environment
import LosslessTree.Report.Basic

/-! What a command works with: files, variables, standard input and output, and a log. -/
namespace LosslessTree

/-- What is known of the program that runs. -/
structure BuildInfo where
  version : Bytes := "dev"
  commit : Bytes := "none"
  date : Bytes := "unknown"
  deriving DecidableEq, Repr

/-- A stream to write to. -/
inductive Stream where
  | output | errors
  deriving DecidableEq, Repr

structure Shell where
  files : FileSystem
  environment : Environment := []
  /-- Standard input, or why it cannot be read. -/
  input : Except Bytes Bytes := .ok []
  build : BuildInfo := {}
  helpTheme : Command.HelpTheme := .plain
  /-- Where remarks go that are neither output nor failures. -/
  remarks : Stream := .errors
  cancellation : Cancellation := .never
  /-- How many more bytes standard output takes; without a number all of them. -/
  room : Option Nat := none
  output : Bytes := []
  errors : Bytes := []
  logger : Logger := {}

/-- Work in a shell. What has been done stays done when a later step fails. -/
abbrev Job := ExceptT Failure (StateM Shell)

namespace Shell

/-- What arrives of a text at standard output. -/
def accepted (s : Shell) (text : Bytes) : Bytes :=
  match s.room with
  | none => text
  | some n => text.take n

/-- Writes as much of a text as standard output takes. -/
def emit (s : Shell) (text : Bytes) : Shell :=
  let text := s.accepted text
  { s with output := s.output ++ text, room := s.room.map (· - text.length) }

/-- Whether standard output takes a text as a whole. -/
def accepts (s : Shell) (text : Bytes) : Bool := (s.accepted text).length == text.length

def addError (s : Shell) (text : Bytes) : Shell := { s with errors := s.errors ++ text }

def emitTo (s : Shell) : Stream → Bytes → Shell
  | .output, text => s.emit text
  | .errors, text => s.addError text

end Shell

namespace Job

/-- The value, or the failure, of something that was computed. -/
def ofExcept {α : Type} : Except Failure α → Job α
  | .ok a => pure a
  | .error f => throw f

/-- Says of a refused access what it was for. -/
def access {α : Type} (purpose : Bytes) : Except AccessError α → Job α
  | .ok a => pure a
  | .error e => throw ((Failure.ofAccess e).within purpose)

def fullFailure : Failure := ⟨[], Report.fullMessage⟩

/-- Prints a text, and fails if not all of it is taken. -/
def print (text : Bytes) : Job Unit := do
  let s ← get
  set (s.emit text)
  if s.accepts text then pure () else throw fullFailure

/-- Logs to the error stream. -/
def log (level : LogLevel) (message : Bytes) (fields : List LogField) : Job Unit :=
  modify fun s => s.addError (s.logger.line level message fields)

/-- Tells to a stream what has been done, whatever the log shows otherwise. -/
def announce (stream : Stream) (message : Bytes) (fields : List LogField) : Job Unit :=
  modify fun s => s.emitTo stream (Logger.line {} .info message fields)

/-- Work on files. -/
def onFiles {α : Type} (work : FileWork α) : Job α := do
  let s ← get
  let (result, session) := work.run.run ⟨s.files, s.cancellation⟩
  set { s with files := session.files, cancellation := session.cancellation }
  ofExcept result

/-- Work that asks now and then whether to stop. -/
def counted {α : Type} (work : Cancellation → α × Cancellation) : Job α := do
  let s ← get
  let (a, c) := work s.cancellation
  set { s with cancellation := c }
  pure a

/-- Everything on standard input. -/
def readInput : Job Bytes := do
  match (← get).input with
  | .ok text => pure text
  | .error reason => throw (Failure.within ⟨[], reason⟩ "read stdin")

def readFile (purpose path : Bytes) : Job Bytes := do
  access purpose ((← get).files.readFile path)

def workingDirectory : Job Bytes := do
  access "get working directory" (← get).files.workingDirectory

end Job
end LosslessTree
