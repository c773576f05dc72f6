import LosslessTree.Text.Path

/-! Guessing the language of a file from its name and content. Only languages that may be registered
under one of these names are told apart. -/
namespace LosslessTree.Detection

/-- File extensions, in lower case, of languages known by name. -/
def byExtension : List (String × String) :=
  [(".livemd", "Markdown"), (".md", "Markdown"), (".markdown", "Markdown"), (".mdown", "Markdown"),
    (".mdwn", "Markdown"), (".mkd", "Markdown"), (".mkdn", "Markdown"), (".mkdown", "Markdown"),
    (".ronn", "Markdown"), (".scd", "Markdown"), (".workbook", "Markdown"), (".go", "Go"),
    (".py", "Python"), (".sh", "Shell"), (".bash", "Shell"), (".zsh", "Shell")]

def byFileName : List (String × String) := [("contents.lr", "Markdown")]

def byInterpreter : List (String × String) :=
  [("sh", "Shell"), ("bash", "Shell"), ("dash", "Shell"), ("ash", "Shell"), ("ksh", "Shell"),
    ("zsh", "Shell"), ("python", "Python"), ("python2", "Python"), ("python3", "Python")]

def byAlias : List (String × String) :=
  [("markdown", "Markdown"), ("md", "Markdown"), ("pandoc", "Markdown"), ("go", "Go"),
    ("golang", "Go"), ("python", "Python"), ("python3", "Python"), ("sh", "Shell"), ("bash", "Shell"),
    ("shell", "Shell"), ("shell-script", "Shell"), ("zsh", "Shell")]

def find? (table : List (String × String)) (key : Bytes) : Option Bytes :=
  (table.find? fun (name, _) => Bytes.ofString name == key).map fun (_, language) =>
    Bytes.ofString language

def isBlank (b : UInt8) : Bool := b == 0x20 || (0x09 ≤ b && b ≤ 0x0D)

def words (s : Bytes) : List Bytes :=
  (Bytes.split 0x20 (s.map fun b => if isBlank b then 0x20 else b)).filter (!·.isEmpty)

/-- The interpreter named in a `#!` line, looked up through `env`. -/
def interpreter? (content : Bytes) : Option Bytes :=
  match Bytes.after? "#!" (content.takeWhile (· != 0x0A)) with
  | none => none
  | some line =>
    match words line with
    | [] => none
    | command :: arguments =>
      let name := Path.base command
      if name = Bytes.ofString "env" then
        (arguments.find? fun a => !(a.head? == some 0x2D || a.contains 0x3D)).map Path.base
      else some name

def byShebang? (content : Bytes) : Option Bytes := (interpreter? content).bind (find? byInterpreter)

/-- The text after the first occurrence of a mark. -/
def afterMark? (mark : Bytes) : Bytes → Option Bytes
  | [] => none
  | b :: rest =>
    match Bytes.after? mark (b :: rest) with
    | some after => some after
    | none => afterMark? mark rest

/-- The text before the first occurrence of a mark. -/
def beforeMark? (mark : Bytes) : Bytes → Option Bytes
  | [] => none
  | b :: rest =>
    if mark.isPrefixOf (b :: rest) then some []
    else (beforeMark? mark rest).map (b :: ·)

def isNameByte (b : UInt8) : Bool := Bytes.isAlnum b || b == 0x2D || b == 0x5F || b == 0x2B

/-- The mode in an editor line `-*- mode: name -*-` or `-*- name -*-`. -/
def starMode? (line : Bytes) : Option Bytes :=
  (afterMark? "-*-" line).bind (beforeMark? "-*-") |>.map fun inside =>
    let inside := Bytes.toLower (Bytes.trim isBlank inside)
    match afterMark? "mode:" inside with
    | some after => (Bytes.trimLeft isBlank after).takeWhile isNameByte
    | none => inside

/-- The file type in an editor line `vim: ft=name`. -/
def typeMode? (line : Bytes) : Option Bytes :=
  let line := Bytes.toLower line
  ((afterMark? "vim:" line).orElse fun _ => (afterMark? "vi:" line).orElse fun _ =>
      afterMark? "ex:" line).bind fun after =>
    ((afterMark? "ft=" after).orElse fun _ => (afterMark? "filetype=" after).orElse fun _ =>
      afterMark? "syntax=" after).map fun name => name.takeWhile isNameByte

/-- The language named in an editor line among the first or last five lines. -/
def byModeLine? (content : Bytes) : Option Bytes :=
  let lines := Bytes.split 0x0A content
  let near := if lines.length ≤ 10 then lines else lines.take 5 ++ lines.drop (lines.length - 5)
  near.findSome? fun line =>
    ((starMode? line).orElse fun _ => typeMode? line).bind (find? byAlias)

/-- A mode line comes before the file name, that before an interpreter, and the extension is last. -/
def guess? (name content : Bytes) : Option Bytes :=
  (byModeLine? content).orElse fun _ =>
    (find? byFileName name).orElse fun _ =>
      (byShebang? content).orElse fun _ => find? byExtension (Path.lower (Path.extension name))

end LosslessTree.Detection
