import LosslessTree.Language.Calc.Parser
import LosslessTree.Language.Decl.Parser
import LosslessTree.Language.Detection
import LosslessTree.Language.Markdown.Document
import LosslessTree.Text.Quoted

/-! Languages and their registry. Names and extensions are compared in lower case. -/
namespace LosslessTree

structure Language where
  name : Bytes
  /-- File extensions, in lower case and with their dot. -/
  extensions : List Bytes
  kindNames : KindNames
  parse : Bytes → Cache → Cancellation → Parsed
  /-- The kind of a text that is exactly one token. -/
  relex? : Bytes → Option Kind

namespace Language

def ofCalc : Language where
  name := "calc"
  extensions := [".calc"]
  kindNames := Calc.kindNames
  parse := Calc.parse
  relex? text := (Calc.relex? text).map Calc.Symbol.kind

def ofDecl : Language where
  name := "decl"
  extensions := [".decl"]
  kindNames := Decl.kindNames
  parse := Decl.parse
  relex? text := (Decl.relex? text).map Decl.Symbol.kind

/-- Markdown, with or without tables. -/
def ofMarkdown (tables : Bool) : Language where
  name := "markdown"
  extensions := [".md", ".markdown", ".mdown", ".mkd"]
  kindNames := Markdown.kindNames
  parse := Markdown.parse tables
  relex? text := (Markdown.relex? text).map Markdown.Symbol.kind

/-- A language with a name and extensions only; every text parses to an empty node. -/
def named (name : Bytes) (extensions : List Bytes) : Language where
  name := name
  extensions := extensions
  kindNames := []
  parse _ cache cancellation := ⟨.ok (.node 0 []), cache, cancellation⟩
  relex? _ := none

def builtin (tables : Bool) : List Language := [ofCalc, ofDecl, ofMarkdown tables]

end Language

inductive RegisterError where
  | nameTaken (name : Bytes)
  | extensionTaken (name extension other : Bytes)
  deriving DecidableEq, Repr

def RegisterError.message : RegisterError → Bytes
  | .nameTaken name => "register " ++ name ++ ": language already registered"
  | .extensionTaken name extension other =>
    "register " ++ name ++ ": extension " ++ extension ++ " already handled by " ++ other

/-- The registered languages, in the order they came. -/
structure Registry where
  languages : List Language := []

namespace Registry

def lookup? (r : Registry) (name : Bytes) : Option Language :=
  r.languages.find? fun l => Path.lower l.name == Path.lower name

def forExtension? (r : Registry) (extension : Bytes) : Option Language :=
  r.languages.find? fun l => (l.extensions.map Path.lower).contains (Path.lower extension)

/-- The language for the extension of a path. -/
def forPath? (r : Registry) (path : Bytes) : Option Language :=
  match Path.extension path with
  | [] => none
  | extension => r.forExtension? extension

def register (r : Registry) (l : Language) : Except RegisterError Registry :=
  let name := Path.lower l.name
  if (r.lookup? name).isSome then .error (.nameTaken name)
  else match l.extensions.findSome? fun e => (r.forExtension? e).map fun other => (e, other) with
    | some (e, other) => .error (.extensionTaken name e other.name)
    | none => .ok { languages := r.languages ++ [l] }

/-- Registers what can be registered, and collects what cannot. -/
def registerAll (r : Registry) : List Language → Registry × List RegisterError
  | [] => (r, [])
  | l :: rest =>
    match r.register l with
    | .ok r => registerAll r rest
    | .error e =>
      let (r, errors) := registerAll r rest
      (r, e :: errors)

def registerAllMessage (errors : List RegisterError) : Bytes :=
  "register built-in languages: " ++ Bytes.join "\n" (errors.map RegisterError.message)

/-- A registry with the built-in languages. -/
def builtin (tables : Bool) : Registry := { languages := Language.builtin tables }

def names (r : Registry) : List Bytes := Bytes.sort (r.languages.map fun l => Path.lower l.name)

/-- The languages in the order of their names. -/
def sorted (r : Registry) : List Language :=
  r.languages.mergeSort fun a b => Bytes.le (Path.lower a.name) (Path.lower b.name)

def extensions (r : Registry) : List Bytes :=
  (Bytes.sort (r.languages.flatMap fun l => l.extensions.map Path.lower)).eraseDups

/-- What is said of a name that no registered language has. -/
def unknownMessage (name : Bytes) (available : List Bytes) : Bytes :=
  "unknown language: " ++ Quoted.encode name ++ " (available: " ++ Bytes.join ", " available ++ ")"

/-- The language of a file: by its extension, else by what its name and content suggest. -/
def detect? (r : Registry) (path content : Bytes) : Option Language :=
  (r.forPath? path).orElse fun _ =>
    ((Detection.byShebang? content).bind r.lookup?).orElse fun _ =>
      (Detection.guess? (Path.base path) content).bind r.lookup?

end Registry
end LosslessTree
