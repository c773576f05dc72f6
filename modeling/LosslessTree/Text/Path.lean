import LosslessTree.Bytes.Utf8
import LosslessTree.Unicode.Lower

/-! Slash-separated paths as texts. -/
namespace LosslessTree.Path

def separator : UInt8 := 0x2F

/-- The text in lower case, glyph by glyph. -/
def lower (s : Bytes) : Bytes :=
  (Utf8.decode s).flatMap fun g => Utf8.encode (Unicode.toLower g.point)

/-- The extension with its dot: from the last dot of the last component. -/
def extension (path : Bytes) : Bytes :=
  let name := (path.reverse.takeWhile (· != separator)).reverse
  match name.reverse.findIdx? (· == 0x2E) with
  | none => []
  | some i => name.drop (name.length - (i + 1))

/-- The last component; of an empty path `.`, of a path of slashes a slash. -/
def base (path : Bytes) : Bytes :=
  if path.isEmpty then "."
  else
    let trimmed := Bytes.trimRight (· == separator) path
    if trimmed.isEmpty then [separator]
    else (trimmed.reverse.takeWhile (· != separator)).reverse

def isAbsolute (path : Bytes) : Bool := path.head? == some separator

/-- Works off the components of a path: `.` says nothing, `..` goes back where it can. -/
def cleanComponents (rooted : Bool) (done : List Bytes) : List Bytes → List Bytes
  | [] => done.reverse
  | c :: rest =>
    if c.isEmpty ∨ c = [0x2E] then cleanComponents rooted done rest
    else if c = [0x2E, 0x2E] then
      match done with
      | d :: before =>
        if d = [0x2E, 0x2E] then cleanComponents rooted (c :: done) rest
        else cleanComponents rooted before rest
      | [] => cleanComponents rooted (if rooted then [] else [c]) rest
    else cleanComponents rooted (c :: done) rest

/-- The shortest path of the same meaning. -/
def clean (path : Bytes) : Bytes :=
  let rooted := isAbsolute path
  let components := cleanComponents rooted [] (Bytes.split separator path)
  let joined := Bytes.join [separator] components
  if rooted then separator :: joined
  else if joined.isEmpty then [0x2E] else joined

/-- Joins the parts that are not empty, and cleans the result. -/
def join (parts : List Bytes) : Bytes :=
  match parts.filter (!·.isEmpty) with
  | [] => []
  | parts => clean (Bytes.join [separator] parts)

/-- Everything before the last component. -/
def dir (path : Bytes) : Bytes :=
  clean (path.take (path.length - (path.reverse.takeWhile (· != separator)).length))

/-- The components of a clean path. -/
def components (path : Bytes) : List Bytes :=
  (Bytes.split separator path).filter (!·.isEmpty)

/-- Drops the longest common start of two lists. -/
def dropCommon : List Bytes → List Bytes → List Bytes × List Bytes
  | a :: as, b :: bs => if a = b then dropCommon as bs else (a :: as, b :: bs)
  | as, bs => (as, bs)

/-- The way from one clean absolute path to another. -/
def relativeTo (base target : Bytes) : Bytes :=
  let (up, down) := dropCommon (components (clean base)) (components (clean target))
  match List.replicate up.length [0x2E, 0x2E] ++ down with
  | [] => [0x2E]
  | parts => Bytes.join [separator] parts

end LosslessTree.Path
