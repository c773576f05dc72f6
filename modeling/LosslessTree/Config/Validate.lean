import LosslessTree.Config.Basic
import LosslessTree.Config.Pattern

/-! Checking the values of a configuration. Errors make it unusable; warnings do not. -/
namespace LosslessTree

/-- Something wrong with a field. -/
structure Finding where
  field : Bytes
  message : Bytes
  /-- Where the value comes from, if that is known. -/
  file : Bytes := []
  deriving DecidableEq, Repr

def Finding.text (f : Finding) : Bytes :=
  Bytes.join ": " ([f.file, f.field].filter (!·.isEmpty) ++ [f.message])

structure Findings where
  errors : List Finding := []
  warnings : List Finding := []
  deriving DecidableEq, Repr

namespace Findings

def isValid (f : Findings) : Bool := f.errors.isEmpty

def messages (f : Findings) : List Bytes :=
  f.errors.map (fun e => Bytes.ofString "error: " ++ e.text) ++
    f.warnings.map (fun w => Bytes.ofString "warning: " ++ w.text)

/-- The findings of one file. -/
def inFile (file : Bytes) (f : Findings) : Findings where
  errors := f.errors.map fun e => { e with file }
  warnings := f.warnings.map fun w => { w with file }

end Findings

namespace Config

def knownFormats : List String := ["text", "json"]
def knownColors : List String := ["auto", "always", "never"]
def knownLogLevels : List String := ["debug", "info", "warn", "error"]

/-- A word that is neither empty nor one of those known. -/
def wordFindings (field what : String) (known : List String) (shown word : Bytes) : List Finding :=
  if word.isEmpty || (known.map Bytes.ofString).contains word then []
  else
    [{ field := field
       message := Bytes.ofString ("invalid " ++ what ++ " ") ++ Quoted.encode shown ++
        Bytes.ofString ("; must be one of: " ++ ", ".intercalate known) }]

def patternFindings (field : String) (patterns : List Bytes) : List Finding :=
  (patterns.mapIdx fun i pattern =>
    let name : Bytes := Bytes.ofString field ++ "[" ++ Bytes.ofNat i ++ "]"
    if (Text.trimSpace pattern).isEmpty then [{ field := name, message := "empty glob pattern" }]
    else if Pattern.isWellFormed pattern then []
    else [{ field := name, message := "invalid glob pattern: syntax error in pattern" }]).flatten

def errors (c : Config) : List Finding :=
  wordFindings "format" "format" knownFormats c.format c.format ++
  wordFindings "color" "color mode" knownColors c.color c.color ++
  wordFindings "log_level" "log level" knownLogLevels c.logLevel (Path.lower c.logLevel) ++
  (if c.jobs < 0 then [⟨"jobs", "jobs must be >= 0 (0 means auto)", []⟩] else []) ++
  (if c.maxDepth < 0 then
    [⟨"output.max_depth", "max_depth must be >= 0 (0 means unlimited)", []⟩]
  else []) ++
  patternFindings "files.include" c.includes ++ patternFindings "files.exclude" c.excludes

def warnings (c : Config) : List Finding :=
  if Text.trimSpace c.language = c.language then []
  else [⟨"language", "surrounding whitespace is ignored", []⟩]

def validate (c : Config) : Findings := ⟨c.errors, c.warnings⟩

/-- The configuration as it is used once it has been checked. -/
def normalized (c : Config) : Config := { c with language := Text.trimSpace c.language }

end Config
end LosslessTree
