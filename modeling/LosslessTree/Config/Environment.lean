import LosslessTree.Config.Basic

/-! Settings from environment variables. A variable that is empty counts as not set. -/
namespace LosslessTree

/-- The variables of a process. -/
abbrev Environment := List (Bytes × Bytes)

namespace Environment

/-- How the value of a variable is read. -/
inductive Reading where
  | text (make : Bytes → Setting)
  | bool (make : Bool → Setting)
  | int (make : Int → Setting)
  | list (make : List Bytes → Setting)

structure Variable where
  name : String
  description : String
  reading : Reading

/-- The variables that are looked at, by name. -/
def known : List Variable :=
  [⟨"SYNTREE_CACHE_SHARED", "Share one interning cache across files: true or false", .bool .sharedCache⟩,
    ⟨"SYNTREE_COLOR", "Styled output: auto, always or never", .text .color⟩,
    ⟨"SYNTREE_FILES_EXCLUDE", "Comma-separated list of exclude patterns", .list .excludes⟩,
    ⟨"SYNTREE_FILES_FOLLOW_SYMLINKS", "Follow directory symlinks: true or false",
      .bool .followSymlinks⟩,
    ⟨"SYNTREE_FILES_INCLUDE", "Comma-separated list of include patterns", .list .includes⟩,
    ⟨"SYNTREE_FORMAT", "Output format: text or json", .text .format⟩,
    ⟨"SYNTREE_JOBS", "Number of parallel workers (0 = auto)", .int .jobs⟩,
    ⟨"SYNTREE_LANGUAGE", "Force a language for every input", .text .language⟩,
    ⟨"SYNTREE_LOG_LEVEL", "Log level: debug, info, warn or error", .text .logLevel⟩,
    ⟨"SYNTREE_MARKDOWN_GFM", "Enable GitHub Flavored Markdown: true or false", .bool .tables⟩,
    ⟨"SYNTREE_OUTPUT_MAX_DEPTH", "Maximum printed tree depth (0 = unlimited)", .int .maxDepth⟩,
    ⟨"SYNTREE_OUTPUT_OFFSETS", "Print element ranges: true or false", .bool .offsets⟩]

/-- The items between commas, without blanks around them and without empty ones. -/
def items (value : Bytes) : List Bytes :=
  ((Bytes.split 0x2C value).map Text.trimSpace).filter (!·.isEmpty)

/-- The setting of a variable, or what is wrong with its value. -/
def Variable.setting (v : Variable) (value : Bytes) : Except Bytes Setting :=
  match v.reading with
  | .text make => .ok (make value)
  | .list make => .ok (make (items value))
  | .bool make => match Text.bool? value with
    | some b => .ok (make b)
    | none => .error ("invalid boolean for " ++ v.name ++ ": " ++ Quoted.encode value ++
        " (expected true/false/1/0)")
  | .int make => match Text.integer? value with
    | some n => .ok (make n)
    | none => .error ("invalid integer for " ++ v.name ++ ": " ++ Quoted.encode value)

/-- The value of a variable that is set. -/
def value? (env : Environment) (name : Bytes) : Option Bytes :=
  (env.lookup name).filter (!·.isEmpty)

/-- The settings of some variables up to the first that is invalid. -/
def settingsOf (env : Environment) : List Variable → List Setting × Option Bytes
  | [] => ([], none)
  | v :: rest =>
    match env.value? v.name with
    | none => settingsOf env rest
    | some value =>
      match v.setting value with
      | .error message => ([], some message)
      | .ok s =>
        let (found, error) := settingsOf env rest
        (s :: found, error)

def settings (env : Environment) : List Setting × Option Bytes := settingsOf env known

end Environment
end LosslessTree
