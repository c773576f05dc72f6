import LosslessTree.Command.Configuration
import LosslessTree.Command.Edit
import LosslessTree.Command.Languages
import LosslessTree.Command.Lookup

/-! The program: finds the command that its arguments ask for, checks them and runs it. -/
namespace LosslessTree

namespace Command

/-- Prints a help text. A text that is cut short is no failure, but is remarked on. -/
def printHelp (s : Spec) : Job Unit := do
  let shell ← get
  let text := Help.text shell.helpTheme s
  set (shell.emit text)
  unless shell.accepts text do
    modify fun shell => shell.addError (Report.fullMessage ++ "\n")

/-- What is said of words that lead to no command. -/
def unknownTopic (words : List Bytes) : Bytes :=
  "Unknown help topic [" ++ Bytes.join " " (words.map Quoted.encodeRaw) ++ "]\n"

/-- Prints the help on the command that words name. -/
def help (words : List Bytes) : Job Unit := do
  match locate words with
  | .ok found => printHelp found.spec
  | .error _ =>
    modify fun shell => shell.emitTo shell.remarks (unknownTopic words)
    Job.print (Help.usage (← get).helpTheme Catalog.program Catalog.program.own)

def version : Job Unit := do
  let build := (← get).build
  Job.announce .output programName
    [⟨"version", build.version⟩, ⟨"commit", build.commit⟩, ⟨"built", build.date⟩]

/-- What is wrong with the number of arguments, if anything. -/
def arityProblem? (s : Spec) (positional : List Bytes) : Option Bytes :=
  match s.arity, positional with
  | .any, _ | .none, [] => none
  | .none, word :: _ => some (unknownCommandMessage word s)
  | .exactly n, _ =>
    if positional.length = n then none
    else some ("accepts " ++ Bytes.ofNat n ++ " arg(s), received " ++ Bytes.ofNat positional.length)

/-- What is wrong with flags of which one has to be given and no two may be, if anything. -/
def choiceProblem? (s : Spec) (a : Arguments) : Option Bytes :=
  if s.choice.isEmpty then none
  else
    let group : Bytes := "[" ++ Bytes.ofString (" ".intercalate s.choice) ++ "]"
    match Bytes.sort ((s.choice.filter a.isSet).map Bytes.ofString) with
    | [] => some ("at least one of the flags in the group " ++ group ++ " is required")
    | [_] => none
    | given => some ("if any flags in the group " ++ group ++
        " are set none of the others can be; [" ++ Bytes.join " " given ++ "] were all set")

def perform (action : Action) (a : Arguments) : Job Unit :=
  match action with
  | .parse => parse a
  | .stats => stats a
  | .edit => edit a (a.positional.headD [])
  | .init => init a
  | .languages => languages a
  | .showConfig => showConfig a
  | .locateConfig => locateConfig
  | .listVariables => listVariables
  | .checkConfig => checkConfig (a.positional.headD [])
  | .version => version
  | .help => help a.positional
  | .completion => pure ()

/-- Runs a command with the arguments that were left for it. -/
def execute (s : Spec) (arguments : List Bytes) : Job Unit := do
  match Arguments.read (s.helpFlag :: s.knownFlags) arguments with
  | .error e => throw ⟨[], e.message⟩
  | .ok a =>
    match s.action with
    | none => printHelp s
    | some action =>
      if a.bool s.helpFlag.name then printHelp s
      else match (arityProblem? s a.positional).orElse fun _ => choiceProblem? s a with
        | some problem => throw ⟨[], problem⟩
        | none => perform action a

/-- Runs the command that arguments ask for. -/
def run (arguments : List Bytes) : Job Unit := do
  match locate arguments with
  | .error e => throw ⟨[], e.message⟩
  | .ok found => execute found.spec found.arguments

end Command

namespace Shell

/-- What a command line leaves behind: the shell, and the failure it ended with. -/
def run (s : Shell) (arguments : List Bytes) : Option Failure × Shell :=
  match (Command.run arguments).run.run s with
  | (.ok (), s) => (none, s)
  | (.error f, s) => (some f, s)

/-- Whether a failure has been told in the course of the command. -/
def isReported (f : Failure) : Bool := f.has .parseFailures || f.has .errorNodes

/-- Runs a command line as the whole program does, which logs the failure and ends with an exit code. -/
def runProgram (s : Shell) (arguments : List Bytes) : ExitCode × Shell :=
  let (failure, s) := s.run arguments
  let s := match failure with
    | none => s
    | some f =>
      if isReported f then s
      else s.addError (s.logger.line .error "command failed" [⟨"error", f.message⟩])
  (ExitCode.ofOutcome failure, s)

end Shell
end LosslessTree
