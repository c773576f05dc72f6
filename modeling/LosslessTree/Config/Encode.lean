import LosslessTree.Config.Basic
import LosslessTree.Json.Layout
import LosslessTree.Yaml.Writer

/-! Writing a configuration. -/
namespace LosslessTree.Config

/-- What is written for a field. -/
inductive Field where
  | text (key : String) (value : Bytes)
  | int (key : String) (value : Int)
  | bool (key : String) (value : Bool)
  | list (key : String) (items : List Bytes)
  | group (key : String) (fields : List Field)

/-- The fields in the order in which they are written. A language that is not set and empty lists are
left out. -/
def fields (c : Config) : List Field :=
  (if c.language.isEmpty then [] else [.text "language" c.language]) ++
  [.text "format" c.format, .text "color" c.color, .text "log_level" c.logLevel, .int "jobs" c.jobs,
    .group "cache" [.bool "shared" c.sharedCache],
    .group "markdown" [.bool "gfm" c.tables],
    .group "output" [.bool "offsets" c.offsets, .int "max_depth" c.maxDepth],
    .group "files"
      ((if c.includes.isEmpty then [] else [.list "include" c.includes]) ++
        (if c.excludes.isEmpty then [] else [.list "exclude" c.excludes]) ++
        [.bool "follow_symlinks" c.followSymlinks])]

namespace Field

def wordOf (b : Bool) : Bytes := if b then "true" else "false"

/-- A key after its margin. -/
def keyLine (indent : Nat) (key : String) : Bytes :=
  List.replicate indent 0x20 ++ Bytes.ofString key ++ [0x3A]

mutual

def yaml (indent : Nat) : Field → Bytes
  | .text key value =>
    keyLine indent key ++ " " ++ Yaml.Writer.string (indent + 2) value
  | .int key value => keyLine indent key ++ " " ++ Bytes.ofInt value ++ "\n"
  | .bool key value => keyLine indent key ++ " " ++ wordOf value ++ "\n"
  | .list key items =>
    keyLine indent key ++ [0x0A] ++ items.flatMap fun item =>
      List.replicate (indent + 2) 0x20 ++ [0x2D, 0x20] ++ Yaml.Writer.string (indent + 4) item
  | .group key fields => keyLine indent key ++ "\n" ++ yamlAll (indent + 2) fields

def yamlAll (indent : Nat) : List Field → Bytes
  | [] => []
  | f :: rest => yaml indent f ++ yamlAll indent rest

end

mutual

def json : Field → Bytes × Json
  | .text key value => (key, .string value)
  | .int key value => (key, .ofInt value)
  | .bool key value => (key, .bool value)
  | .list key items => (key, .array (items.map .string))
  | .group key fields => (key, .object (jsonAll fields))

def jsonAll : List Field → List (Bytes × Json)
  | [] => []
  | f :: rest => json f :: jsonAll rest

end

end Field

def toYaml (c : Config) : Bytes := Field.yamlAll 0 c.fields

/-- A header stands before the text, with a blank line between. -/
def withHeader (header text : Bytes) : Bytes :=
  if header.isEmpty then text
  else header ++ (if header.getLast? == some 0x0A then [] else [0x0A]) ++ [0x0A] ++ text

def toJson (c : Config) : Json := .object (Field.jsonAll c.fields)

end LosslessTree.Config
