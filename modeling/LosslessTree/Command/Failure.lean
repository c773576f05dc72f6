import LosslessTree.Failure.Basic
import LosslessTree.Edit.Basic
import LosslessTree.Runner.Outcome

/-! Failures of commands, and the exit codes that go with them. -/
namespace LosslessTree

namespace Failure

def usageText : String := "invalid usage"
def configText : String := "invalid configuration"
def parseFailuresText : String := "some files could not be parsed"
def errorNodesText : String := "syntax errors found"

def ofUsage (message : Bytes) : Failure := under ⟨[], message⟩ .usage usageText

def ofEditError (e : EditError) : Failure where
  causes := match e with
    | .negativeStart _ | .inverted _ | .tooLong .. => [.invalidEdit]
    | .overlap .. => [.overlappingEdits]
    | .spansTokens _ | .noToken _ => [.editSpansTokens]
    | .tokenChanged .. => [.tokenChanged]
  message := e.message

def ofParseError (e : ParseError) : Failure where
  causes := match e with
    | .cancelled _ => [.cancelled]
    | .build .. => []
  message := e.message

def ofFileError (e : FileError) : Failure where
  causes := match e with
    | .unreadable _ cause => (ofAccess cause).causes
    | .unknownLanguage .. | .undetected _ => [.unknownLanguage]
    | .unparsed _ cause => (ofParseError cause).causes
    | .other _ => []
  message := e.message

end Failure

/-- Exit codes: what a caller of the program can tell apart. -/
inductive ExitCode where
  | success | parseFailures | errorNodes | invalidUsage | invalidConfig | internal | io
  deriving DecidableEq, Repr

namespace ExitCode

def number : ExitCode → Nat
  | .success => 0
  | .parseFailures => 1
  | .errorNodes => 2
  | .invalidUsage => 64
  | .invalidConfig => 65
  | .internal => 70
  | .io => 74

/-- Causes that are the user's to mend. -/
def usageCauses : List Cause :=
  [.usage, .unknownLanguage, .invalidEdit, .editSpansTokens, .tokenChanged, .overlappingEdits]

def ioCauses : List Cause :=
  [.notExist, .permissionDenied, .stale, .notFound, .isDirectory]

/-- The code of a failure: of several causes the more telling one counts. -/
def ofFailure (f : Failure) : ExitCode :=
  if f.has .parseFailures then .parseFailures
  else if f.has .errorNodes then .errorNodes
  else if f.has .invalidConfig then .invalidConfig
  else if usageCauses.any f.has then .invalidUsage
  else if ioCauses.any f.has then .io
  else .internal

def ofOutcome : Option Failure → ExitCode
  | none => .success
  | some f => ofFailure f

/-- The code of a run; error nodes count only where they are not allowed. -/
def ofResult (r : RunResult) (strict : Bool) : ExitCode :=
  if r.hasFailures then .parseFailures
  else if strict && r.hasErrorNodes then .errorNodes
  else .success

end ExitCode

/-- The failure that carries the exit code of a run. -/
def RunResult.failure? (r : RunResult) (strict : Bool) : Option Failure :=
  match ExitCode.ofResult r strict with
  | .parseFailures => some ⟨[.parseFailures], Failure.parseFailuresText⟩
  | .errorNodes => some ⟨[.errorNodes], Failure.errorNodesText⟩
  | _ => none

end LosslessTree
