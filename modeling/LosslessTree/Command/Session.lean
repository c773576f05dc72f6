import LosslessTree.Command.Arguments
import LosslessTree.Command.Failure
import LosslessTree.Command.Shell
import LosslessTree.Config.Load

/-! The configuration that a command runs with. -/
namespace LosslessTree.Command

structure Session where
  config : Config
  workDir : Bytes
  /-- The files that the configuration comes from. -/
  loadedFrom : List Bytes := []

namespace Arguments

/-- The setting that a flag makes, if it is given. -/
def textSetting (a : Arguments) (name : String) (make : Bytes → Setting) : List Setting :=
  match a.value? name with
  | some (.text t) => [make t]
  | _ => []

def boolSetting (a : Arguments) (name : String) (make : Bool → Setting) : List Setting :=
  match a.value? name with
  | some (.bool b) => [make b]
  | _ => []

def intSetting (a : Arguments) (name : String) (make : Int → Setting) : List Setting :=
  match a.value? name with
  | some (.int n) => [make n]
  | _ => []

def listSetting (a : Arguments) (name : String) (make : List Bytes → Setting) : List Setting :=
  match a.value? name with
  | some (.list items) => [make items]
  | _ => []

/-- What the global flags set. -/
def globalSettings (a : Arguments) : List Setting :=
  a.textSetting "language" .language ++ a.textSetting "format" .format ++
  a.textSetting "color" .color ++ a.textSetting "log-level" .logLevel ++ a.intSetting "jobs" .jobs ++
  if a.bool "debug" then [.logLevel "debug"] else []

/-- What the flags about files and trees set. -/
def inspectionSettings (a : Arguments) : List Setting :=
  a.boolSetting "shared-cache" .sharedCache ++ a.boolSetting "follow-symlinks" .followSymlinks ++
  a.listSetting "include" .includes ++ a.listSetting "exclude" .excludes ++
  a.intSetting "depth" .maxDepth ++ a.boolSetting "no-offsets" fun b => .offsets !b

end Arguments

namespace Session

/-- Resolves the configuration. Flags come last: first the global ones, then `settings`. From here on the
log is kept as configured. -/
def load (a : Arguments) (settings : List Setting) : Job Session := do
  let workDir ← Job.workingDirectory
  let s ← get
  let options : Config.LoadOptions :=
    { workingDir := workDir, explicit := a.text "config"
      ignoreUser := a.bool "no-config", ignoreProject := a.bool "no-config"
      overrides := a.globalSettings ++ settings }
  match ← Job.counted (Config.load s.files s.environment options) with
  | .error f => throw (f.under .invalidConfig Failure.configText)
  | .ok loaded =>
    modify fun s => { s with logger := { level := .ofText loaded.config.logLevel } }
    loaded.warnings.forM fun w => Job.log .warn w []
    unless loaded.loadedFrom.isEmpty do
      Job.log .debug "loaded configuration" [.ofList "files" loaded.loadedFrom]
    pure ⟨loaded.config, workDir, loaded.loadedFrom⟩

def registry (s : Session) : Registry := .builtin s.config.tables

def colorMode (s : Session) : ColorMode := .ofText s.config.color

end Session
end LosslessTree.Command
