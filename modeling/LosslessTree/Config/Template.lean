import LosslessTree.Config.Encode

/-! The text of a new configuration file. -/
namespace LosslessTree.Config.Template

structure Options where
  /-- Whether settings are in force rather than commented out. -/
  full : Bool := false
  json : Bool := false
  /-- The languages to mention. -/
  languages : List Bytes := []

def header : Bytes := "# syntree configuration\n# See: https://github.com/yaklabco/syntree"

/-- The pattern given as an example. -/
def exclude : Bytes := "vendor/**"

def excludeLine : Bytes := "    - " ++ Quoted.encode exclude

/-- A remark and the lines it is about. -/
structure Entry where
  remark : Bytes
  lines : List Bytes

def entries : List Entry :=
  let c : Config := {}
  [⟨"Output format: text or json", ["format: " ++ c.format]⟩,
    ⟨"Styled output: auto, always or never", ["color: " ++ c.color]⟩,
    ⟨"Log level: debug, info, warn or error", ["log_level: " ++ c.logLevel]⟩,
    ⟨"Number of parallel workers (0 = one per CPU)", ["jobs: 0"]⟩,
    ⟨"Share one interning cache between all files of a run", ["cache:", "  shared: false"]⟩,
    ⟨"Markdown driver", ["markdown:", "  gfm: true"]⟩,
    ⟨"Tree rendering (max_depth 0 = unlimited)", ["output:", "  offsets: true", "  max_depth: 0"]⟩,
    ⟨"File discovery (glob patterns)",
      ["files:", "  exclude:", excludeLine, "  follow_symlinks: false"]⟩]

def Entry.text (mark : Bytes) (e : Entry) : Bytes :=
  Bytes.ofString "# " ++ e.remark ++ [0x0A] ++ e.lines.flatMap fun line => mark ++ line ++ [0x0A]

def yaml (o : Options) : Bytes :=
  let languages : Bytes :=
    if o.languages.isEmpty then "detected from the file name and content"
    else "one of " ++ Bytes.join ", " o.languages
  let first : Bytes :=
    "# Force a language for every input (" ++ languages ++ ")\n# language: calc\n"
  let mark : Bytes := if o.full then [] else "# "
  header ++ "\n\n" ++ Bytes.join "\n" (first :: entries.map (Entry.text mark))

def json : Bytes :=
  let c : Config := { excludes := [exclude] }
  Json.plain (Json.pretty 0 c.toJson.sorted)

def text (o : Options) : Bytes := if o.json then json else yaml o

end LosslessTree.Config.Template
