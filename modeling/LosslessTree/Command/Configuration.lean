import LosslessTree.Command.Session
import LosslessTree.Config.Template

/-! The commands about configuration files. -/
namespace LosslessTree.Command

/-- Prints the configuration that counts. -/
def showConfig (a : Arguments) : Job Unit := do
  let session ← Session.load a []
  let sources : Bytes :=
    if session.loadedFrom.isEmpty then "built-in defaults" else Bytes.join ", " session.loadedFrom
  Job.print (Config.withHeader ("# Resolved from " ++ sources) session.config.toYaml)

/-- Prints where configuration files are looked for. -/
def locateConfig : Job Unit := do
  let workDir ← Job.workingDirectory
  let s ← get
  match ← Job.counted (Config.locate s.files s.environment workDir) with
  | .error f => throw (f.under .invalidConfig Failure.configText)
  | .ok places =>
    let shown (path : Option Bytes) : Bytes := path.getD "(none)"
    Job.print ("user dir: " ++ Config.userDir s.environment ++ "\nuser:     " ++ shown places.user ++
      "\nproject:  " ++ shown places.project ++ "\n")

/-- Prints the variables that are looked at. -/
def listVariables : Job Unit :=
  let width := (Environment.known.map fun v => Cells.width v.name).foldl max 0
  Job.print (Environment.known.flatMap fun v =>
    Cells.padRight v.name width ++ [0x20, 0x20] ++ Bytes.ofString v.description ++ [0x0A])

/-- Checks a configuration file, and prints what is found. -/
def checkConfig (path : Bytes) : Job Unit := do
  let content ← Job.readFile "read config" path
  match Config.ofYaml content with
  | .error e =>
    throw ((Failure.within ⟨[], e.message⟩ path).under .invalidConfig Failure.configText)
  | .ok config =>
    let findings := config.validate.inFile path
    findings.messages.forM fun message => Job.print (message ++ [0x0A])
    match Config.failure? findings with
    | some f => throw (f.under .invalidConfig Failure.configText)
    | none => if findings.warnings.isEmpty then Job.print (path ++ ": ok\n")

/-- The file that a new configuration goes to. -/
def newConfigPath (a : Arguments) (json : Bool) : Bytes :=
  let output := a.text "output"
  if !output.isEmpty then output else if json then ".syntree.json" else ".syntree.yml"

/-- Creates a configuration file. -/
def init (a : Arguments) : Job Unit := do
  let format := if a.isSet "format" then a.text "format" else Bytes.ofString "yaml"
  let json := format == Bytes.ofString "json"
  if !json && format != Bytes.ofString "yaml" then
    throw (Failure.ofUsage ("invalid format " ++ Quoted.encode format ++ ": must be yaml or json"))
  let path := newConfigPath a json
  let target ← Job.access "resolve path" ((← get).files.absolute path)
  let text := Config.Template.text ⟨a.bool "full", json, (Registry.builtin true).names⟩
  let s ← get
  match s.files.writeFile target text (!a.bool "force") with
  | .error e =>
    if e.fault = .exists then
      throw (Failure.ofUsage (path ++ " already exists; use --force to overwrite"))
    else throw ((Failure.ofAccess e).within ("create " ++ target))
  | .ok files =>
    set { s with files := files }
    Job.announce .errors "created configuration file" [⟨"path", path⟩]

end LosslessTree.Command
