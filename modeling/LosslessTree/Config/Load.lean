import LosslessTree.Config.Decode
import LosslessTree.Config.Locate
import LosslessTree.Config.Validate

/-! The configuration that counts. Its sources are layers, and each of them overrides only what it
sets: defaults, the user's file, the project's file, a file named explicitly, the environment, and last
the settings given on the command line. -/
namespace LosslessTree.Config

structure LoadOptions where
  /-- Where the search for the project's file starts; empty stands for the working directory. -/
  workingDir : Bytes := []
  explicit : Bytes := []
  ignoreUser : Bool := false
  ignoreProject : Bool := false
  ignoreEnvironment : Bool := false
  /-- What comes last. -/
  overrides : List Setting := []

structure Loaded where
  config : Config
  user : Option Bytes := none
  project : Option Bytes := none
  explicit : Bytes := []
  /-- The files that were read, in order. -/
  loadedFrom : List Bytes := []
  warnings : List Bytes := []

/-- The first error of a check. -/
def failure? (f : Findings) : Option Failure :=
  f.errors.head?.map fun e => ⟨[.invalidSetting], e.text⟩

/-- A file over a configuration. Its values are checked at once, so that errors are blamed on it. -/
def overlayFile (files : FileSystem) (c : Config) (path : Bytes) : Except Failure (Config × List Bytes) :=
  match files.readFile path with
  | .error e => .error ((Failure.ofAccess e).within "read file")
  | .ok content =>
    match c.decode content with
    | (_, some e) => .error ⟨[], path ++ ": " ++ e.message⟩
    | (layered, none) =>
      let findings := layered.validate.inFile path
      match failure? findings with
      | some f => .error f
      | none => .ok (layered.normalized, findings.warnings.map Finding.text)

/-- A source that is a file, and what it is called. -/
structure Layer where
  name : String
  path : Bytes

def overlayAll (files : FileSystem) :
    List Layer → Config → Except Failure (Config × List Bytes)
  | [], c => .ok (c, [])
  | layer :: rest, c => do
    let (c, warnings) ← (overlayFile files c layer.path).mapError fun f =>
      f.within (Bytes.ofString ("load " ++ layer.name ++ " config"))
    let (c, more) ← overlayAll files rest c
    pure (c, warnings ++ more)

def layers (o : LoadOptions) (user project : Option Bytes) : List Layer :=
  (if o.ignoreUser then [] else user.toList.map (Layer.mk "user")) ++
  (if o.ignoreProject then [] else project.toList.map (Layer.mk "project")) ++
  (if o.explicit.isEmpty then [] else [⟨"explicit", o.explicit⟩])

/-- The settings of the environment over a configuration, its variables visited in some order. -/
def overlayEnvironment (order : List Environment.Variable) (env : Environment) (c : Config) :
    Except Failure Config :=
  match env.settingsOf order with
  | (settings, none) => .ok (c.apply settings)
  | (_, some message) => .error ⟨[], "load environment: " ++ message⟩

/-- Resolves all layers once the files are known. -/
def resolve (order : List Environment.Variable) (files : FileSystem) (env : Environment)
    (o : LoadOptions) (user project : Option Bytes) : Except Failure Loaded := do
  let sources := layers o user project
  let (c, warnings) ← overlayAll files sources {}
  let c ← (if o.ignoreEnvironment then pure c else overlayEnvironment order env c)
  let c := c.apply o.overrides
  let findings := c.validate
  match failure? findings with
  | some f => throw f
  | none =>
    pure
      { config := c.normalized, user, project, explicit := o.explicit
        loadedFrom := sources.map Layer.path
        warnings := warnings ++ findings.warnings.map Finding.text }

/-- Where the search for the project's file starts. -/
def startDir (files : FileSystem) (o : LoadOptions) : Except Failure Bytes :=
  if o.workingDir.isEmpty then
    files.workingDirectory.mapError fun e => (Failure.ofAccess e).within "get working directory"
  else .ok o.workingDir

/-- Loads the configuration, with the variables of the environment visited in some order. -/
def loadVisiting (order : List Environment.Variable) (files : FileSystem) (env : Environment)
    (o : LoadOptions) (c : Cancellation) : Except Failure Loaded × Cancellation :=
  match startDir files o with
  | .error f => (.error f, c)
  | .ok start =>
    match locate files env start c with
    | (.error f, c) => (.error (f.within "discover paths"), c)
    | (.ok places, c) => (resolve order files env o places.user places.project, c)

def load (files : FileSystem) (env : Environment) (o : LoadOptions) (c : Cancellation) :
    Except Failure Loaded × Cancellation :=
  loadVisiting Environment.known files env o c

end LosslessTree.Config
