import LosslessTree.Config.Basic
import LosslessTree.Text.Base64
import LosslessTree.Text.Quoted
import LosslessTree.Yaml.Node

/-! Reading settings from YAML. Every key that is present gives a setting, and problems with single keys do
not keep the others from being read. -/
namespace LosslessTree

/-- A problem with a key or a value. -/
inductive DecodeIssue where
  /-- A value of the wrong type; collections have no text. -/
  | mismatch (line : Nat) (tag : Bytes) (text : Option Bytes) (wanted : String)
  | unknownField (line : Nat) (name : Bytes) (owner : String)
  | fieldAlreadySet (line : Nat) (name : Bytes) (owner : String)
  | repeatedKey (line : Nat) (key : Bytes) (first : Nat)
  deriving DecidableEq, Repr

/-- Longer texts are cut. -/
def DecodeIssue.shown (text : Bytes) : Bytes :=
  if 10 < text.length then text.take 7 ++ "..." else text

def DecodeIssue.message : DecodeIssue → Bytes
  | .mismatch line tag text wanted =>
    "line " ++ Bytes.ofNat line ++ ": cannot unmarshal " ++ tag ++
      (match text with
        | some t => " `" ++ DecodeIssue.shown t ++ "`"
        | none => []) ++ " into " ++ wanted
  | .unknownField line name owner =>
    "line " ++ Bytes.ofNat line ++ ": field " ++ name ++ " not found in type " ++ owner
  | .fieldAlreadySet line name owner =>
    "line " ++ Bytes.ofNat line ++ ": field " ++ name ++ " already set in type " ++ owner
  | .repeatedKey line key first =>
    "line " ++ Bytes.ofNat line ++ ": mapping key " ++ Quoted.encode key ++
      " already defined at line " ++ Bytes.ofNat first

inductive DecodeError where
  | malformed (e : Yaml.Error)
  | faulty (found : List DecodeIssue)
  deriving DecidableEq, Repr

def DecodeError.message : DecodeError → Bytes
  | .malformed e => "parse yaml: yaml: " ++ e.message
  | .faulty found =>
    "parse yaml: yaml: unmarshal errors:\n  " ++ Bytes.join "\n  " (found.map DecodeIssue.message)

/-- What a place in the configuration holds. -/
inductive Shape where
  | text (type : String) (make : Bytes → Setting)
  | int (make : Int → Setting)
  | bool (make : Bool → Setting)
  | list (make : List Bytes → Setting)
  | group (type : String) (fields : List (String × Shape))

namespace Shape

def typeName : Shape → String
  | .text type _ => type
  | .int _ => "int"
  | .bool _ => "bool"
  | .list _ => "[]string"
  | .group type _ => type

def root : Shape :=
  .group "config.Config"
    [("language", .text "string" .language),
      ("format", .text "config.OutputFormat" .format),
      ("color", .text "config.ColorMode" .color),
      ("log_level", .text "string" .logLevel),
      ("jobs", .int .jobs),
      ("cache", .group "config.CacheConfig" [("shared", .bool .sharedCache)]),
      ("markdown", .group "config.MarkdownConfig" [("gfm", .bool .tables)]),
      ("output", .group "config.OutputConfig"
        [("offsets", .bool .offsets), ("max_depth", .int .maxDepth)]),
      ("files", .group "config.FilesConfig"
        [("include", .list .includes), ("exclude", .list .excludes),
          ("follow_symlinks", .bool .followSymlinks)])]

end Shape

namespace Decode

open Yaml

structure State where
  settings : List Setting := []
  issues : List DecodeIssue := []
  /-- The keys that a merge must not set again; nothing outside merges. -/
  merged : Option (List Bytes) := none

/-- What has been read so far is kept when a fatal problem comes up. -/
abbrev Reader := ExceptT Yaml.Error (StateM State)

def emit (s : Setting) : Reader Unit := modify fun d => { d with settings := d.settings ++ [s] }

def issue (i : DecodeIssue) : Reader Unit := modify fun d => { d with issues := d.issues ++ [i] }

/-- The tags whose scalars are read by their text. -/
def resolvable : List Bytes := [Tag.bool, Tag.int, Tag.float, Tag.null, Tag.timestamp]

/-- A whole number as a double. -/
def floatOfInt (n : Int) : UInt64 :=
  let bits := (Binary64.ofQuotient? n.natAbs 1).getD Binary64.infinityBits
  if n < 0 then bits ||| Binary64.signBit else bits

/-- The value of a scalar under its tag. -/
def valueOf (tag text : Bytes) : Except Yaml.Error Value :=
  if tag == Tag.binary then
    match Base64.decode? text with
    | some data => .ok (.string data)
    | none => .error { problem := .badBinary }
  else if !resolvable.contains tag then .ok (.string text)
  else
    let v := resolve text (tag == Tag.timestamp)
    if v.tag == tag then .ok v
    else match v with
      | .int n =>
        if tag == Tag.float then .ok (.float (floatOfInt n))
        else .error { problem := .badTagged v.tag text tag }
      | _ => .error { problem := .badTagged v.tag text tag }

def mismatch (line : Nat) (tag text : Bytes) (wanted : String) : DecodeIssue :=
  .mismatch line tag (if tag == Tag.seq || tag == Tag.map then none else some text) wanted

def yesWords : List String := ["y", "Y", "yes", "Yes", "YES", "on", "On", "ON"]
def noWords : List String := ["n", "N", "no", "No", "NO", "off", "Off", "OFF"]

def boolOf? : Value → Option Bool
  | .bool b => some b
  | .string t =>
    if (yesWords.map Bytes.ofString).contains t then some true
    else if (noWords.map Bytes.ofString).contains t then some false
    else none
  | _ => none

/-- The integral part of a double that is not above the range of integers. -/
def intOfFloat? (bits : UInt64) : Option Int :=
  let negative := Nat.pow 2 63 ≤ bits.toNat
  let size := bits.toNat % Nat.pow 2 63
  if Binary64.infinityBits.toNat < size then none
  else if size = Binary64.infinityBits.toNat then if negative then some (-(Nat.pow 2 63 : Int)) else none
  else
    let (num, den) := (Dyadic.ofBits bits).quotient
    let n : Int := if negative then -((num / den : Nat) : Int) else (num / den : Nat)
    if negative then some (max n (-(Nat.pow 2 63 : Int)))
    else if n < Nat.pow 2 63 then some n
    else if num = Nat.pow 2 63 * den then some (-(Nat.pow 2 63 : Int))
    else none

def intOf? : Value → Option Int
  | .int n => if Text.isWord n then some n else none
  | .float bits => intOfFloat? bits
  | _ => none

/-- A scalar for a place of some shape. -/
def scalar (shape : Shape) (line : Nat) (tag text : Bytes) : Reader Unit := do
  let value ← (valueOf tag text : Except Yaml.Error Value)
  let wrong := issue (mismatch line tag text shape.typeName)
  match value, shape with
  | .null, .list make => emit (make [])
  | .null, _ => pure ()
  | .string t, .text _ make => emit (make t)
  | _, .text _ make => emit (make text)
  | v, .int make => match intOf? v with
    | some n => emit (make n)
    | none => wrong
  | v, .bool make => match boolOf? v with
    | some b => emit (make b)
    | none => wrong
  | _, _ => wrong

/-- What tells keys apart: their kind and their text. -/
def keyText : Node → Nat × Bytes
  | .scalar _ _ value => (0, value)
  | .sequence .. => (1, [])
  | .mapping .. => (2, [])
  | .alias _ name _ => (3, name)

def repeats : List (Node × Node) → List DecodeIssue
  | [] => []
  | (key, _) :: rest =>
    (rest.filter fun (other, _) => keyText other == keyText key).map (fun (other, _) =>
      .repeatedKey other.line (keyText other).2 key.line) ++ repeats rest

def isMergeKey : Node → Bool
  | .scalar _ tag value => value == Bytes.ofString "<<" && tag == Tag.merge
  | _ => false

def lookupField (fields : List (String × Shape)) (name : Bytes) : Option Shape :=
  (fields.find? fun f => Bytes.ofString f.1 == name).map Prod.snd

/-- The node an alias stands for, unless it is part of itself. -/
def target (anchored : List (Nat × Node)) (within : List Nat) (name : Bytes) (i : Nat) : Reader Node :=
  if within.contains i then throw { problem := .recursiveAnchor name }
  else match anchored.lookup i with
    | some n => pure n
    | none => throw { problem := .recursiveAnchor name }

/-- The text of a node that stands for a string, with problems noted; nothing if there is none. -/
def textOf (anchored : List (Nat × Node)) (fuel : Nat) (within : List Nat) (n : Node) :
    Reader (Option Bytes) := do
  match fuel with
  | 0 => pure none
  | fuel + 1 =>
    match n with
    | .scalar _ tag text =>
      match ← (valueOf tag text : Except Yaml.Error Value) with
      | .null => pure none
      | .string t => pure (some t)
      | _ => pure (some text)
    | .sequence line tag _ => do
      issue (mismatch line tag [] "string")
      pure none
    | .mapping line tag entries =>
      match repeats entries with
      | [] => do
        issue (mismatch line tag [] "string")
        pure none
      | found => do
        found.forM issue
        pure none
    | .alias _ name i => do
      textOf anchored fuel (i :: within) (← target anchored within name i)

/-- The texts of a sequence; items without one are left out. -/
def textsOf (anchored : List (Nat × Node)) (fuel : Nat) (within : List Nat) :
    List Node → Reader (List Bytes)
  | [] => pure []
  | n :: rest => do
    let t ← textOf anchored fuel within n
    pure (t.toList ++ (← textsOf anchored fuel within rest))

/-- The names of the keys of a mapping, as far as they have one. -/
def keyNames : List (Node × Node) → List Bytes
  | [] => []
  | (.scalar _ tag value, _) :: rest =>
    if tag == Tag.null then keyNames rest else value :: keyNames rest
  | _ :: rest => keyNames rest

/-- Whether a node may be merged into a mapping. -/
def isMergeable (anchored : List (Nat × Node)) : Node → Bool
  | .mapping .. => true
  | .alias _ _ i => match anchored.lookup i with
    | some (.mapping ..) => true
    | _ => false
  | _ => false

mutual

/-- Reads a node for a place of some shape. -/
def node (anchored : List (Nat × Node)) (fuel : Nat) (within : List Nat) (shape : Shape) (n : Node) :
    Reader Unit := do
  match fuel with
  | 0 => pure ()
  | fuel + 1 =>
    match n with
    | .alias _ name i => do
      node anchored fuel (i :: within) shape (← target anchored within name i)
    | .scalar line tag text => scalar shape line tag text
    | .sequence line tag items =>
      match shape with
      | .list make => emit (make (← textsOf anchored fuel within items))
      | _ => issue (mismatch line tag [] shape.typeName)
    | .mapping line tag entries =>
      match repeats entries, shape with
      | [], .group type fields => do
        let merged := (← get).merged
        modify fun d => { d with merged := none }
        group anchored fuel within type fields merged [] entries
        match (entries.filter fun e => isMergeKey e.1).getLast? with
        | none => modify fun d => { d with merged := merged }
        | some (_, source) =>
          modify fun d => { d with merged := some (merged.getD (keyNames entries)) }
          merge anchored fuel within shape source
          modify fun d => { d with merged := merged }
      | [], _ => issue (mismatch line tag [] shape.typeName)
      | found, _ => found.forM issue

/-- Reads the entries of a group; `merged` are the keys not to be set again. -/
def group (anchored : List (Nat × Node)) (fuel : Nat) (within : List Nat) (type : String)
    (fields : List (String × Shape)) (merged : Option (List Bytes)) (done : List Bytes)
    (entries : List (Node × Node)) : Reader Unit := do
  match fuel, entries with
  | 0, _ | _, [] => pure ()
  | fuel + 1, (key, value) :: rest =>
    if isMergeKey key then group anchored fuel within type fields merged done rest
    else match ← textOf anchored fuel within key with
      | none => group anchored fuel within type fields merged done rest
      | some name =>
        if (merged.getD []).contains name then
          group anchored fuel within type fields merged done rest
        else
          let merged := merged.map (name :: ·)
          match lookupField fields name with
          | none => do
            issue (.unknownField key.line name type)
            group anchored fuel within type fields merged done rest
          | some shape =>
            if done.contains name then do
              issue (.fieldAlreadySet key.line name type)
              group anchored fuel within type fields merged done rest
            else do
              node anchored fuel within shape value
              group anchored fuel within type fields merged (name :: done) rest

/-- Reads the mappings that are merged into a group. -/
def merge (anchored : List (Nat × Node)) (fuel : Nat) (within : List Nat) (shape : Shape)
    (source : Node) : Reader Unit := do
  match fuel with
  | 0 => pure ()
  | fuel + 1 =>
    match source with
    | .sequence _ _ items =>
      items.forM fun item =>
        if isMergeable anchored item then node anchored fuel within shape item
        else throw { problem := .mergeNeedsMap }
    | _ =>
      if isMergeable anchored source then node anchored fuel within shape source
      else throw { problem := .mergeNeedsMap }

end

/-- The settings of a text, and what was wrong with it. -/
def text (source : Bytes) : List Setting × Option DecodeError :=
  if (Text.trimSpace source).isEmpty then ([], none)
  else match Yaml.parse source with
    | .error e => ([], some (.malformed e))
    | .ok none => ([], none)
    | .ok (some d) =>
      let fuel := 64 * source.length + 64
      match (node d.anchored fuel [] Shape.root d.root).run {} with
      | (.error e, s) => (s.settings, some (.malformed e))
      | (.ok (), s) => (s.settings, if s.issues.isEmpty then none else some (.faulty s.issues))

end Decode

namespace Config

/-- The configuration with the settings of a text, and what was wrong with it. -/
def decode (c : Config) (source : Bytes) : Config × Option DecodeError :=
  let (settings, error) := Decode.text source
  (c.apply settings, error)

/-- The defaults with the settings of a text. -/
def ofYaml (source : Bytes) : Except DecodeError Config :=
  match ({} : Config).decode source with
  | (c, none) => .ok c
  | (_, some e) => .error e

end Config
end LosslessTree
