import LosslessTree.Command.Program

/-! Which paths a command line may look at, so that its files can be provided before it runs. -/
namespace LosslessTree.Command

structure Reach where
  /-- Paths of which only the entry itself matters. -/
  looked : List Bytes := []
  /-- Paths that matter with everything below them. -/
  walked : List Bytes := []

/-- Where configuration files may be, and what ends the search for them. -/
def configReach (env : Environment) (workDir : Bytes) : List Bytes :=
  let marks := Config.projectNames ++ Config.repositoryMarks
  (Config.ancestors workDir).flatMap (fun dir => marks.map fun name => Path.join [dir, name]) ++
    Config.userNames.map fun name => Path.join [Config.userDir env, name]

def argumentsReach (action : Action) (a : Arguments) : Reach :=
  match action with
  | .parse | .stats =>
    { looked := [a.text "config"]
      walked := if a.positional.isEmpty then ["."] else a.positional.filter (· != inputPath) }
  | .edit =>
    { looked := a.text "config" :: a.text "edits" ::
        a.positional.flatMap fun path => [path, FileWork.backupPath path] }
  | .init => { looked := [newConfigPath a true, newConfigPath a false] }
  | _ => { looked := a.text "config" :: a.positional }

/-- The paths that a command line may look at. -/
def reach (env : Environment) (workDir : Bytes) (arguments : List Bytes) : Reach :=
  let config : Reach := { looked := configReach env workDir }
  match locate arguments with
  | .error _ => config
  | .ok found =>
    match found.spec.action, Arguments.read (found.spec.helpFlag :: found.spec.knownFlags) found.arguments with
    | some action, .ok a =>
      let named := argumentsReach action a
      { looked := (config.looked ++ named.looked).filter (!·.isEmpty), walked := named.walked }
    | _, _ => config

/-- Whether a command line may read standard input. -/
def readsInput (arguments : List Bytes) : Bool := arguments.contains inputPath

end LosslessTree.Command
