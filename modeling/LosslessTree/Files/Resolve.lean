import LosslessTree.Files.Basic

/-! Finding what a path stands for. Links are followed on the way; only so many of them, which is why
the search ends. -/
namespace LosslessTree.FileSystem

/-- Where a path leads. -/
inductive Place where
  | found (l : Location)
  /-- Only the last name is missing. -/
  | absent (dir : Location) (name : Bytes)
  deriving DecidableEq, Repr

def maxNameLength : Nat := 255
def maxPathLength : Nat := 4095

/-- How many links are followed when a file is opened. -/
def maxLinks : Nat := 40

/-- How many links are followed when a path is made canonical. -/
def maxCanonicalLinks : Nat := 255

/-- Works off the names of a path from a location. A name can only be looked up in a directory; a link
at the very end is followed if wanted. `onward` goes on from a link, and is missing if no more of them
may be followed. -/
def resolveNames (fs : FileSystem) (follow : Bool)
    (onward : Option (Location → List Bytes → Except AccessFault Place)) (here : Location) :
    List Bytes → Except AccessFault Place
  | [] => .ok (.found here)
  | name :: rest =>
    if !fs.isDirectory here then .error .notDirectory
    else if name.isEmpty || name == [0x2E] then resolveNames fs follow onward here rest
    else if name == [0x2E, 0x2E] then resolveNames fs follow onward here.dropLast rest
    else if maxNameLength < name.length then .error .nameTooLong
    else match fs.entry? (here ++ [name]) with
      | none => if rest.isEmpty then .ok (.absent here name) else .error .notFound
      | some (.link target) =>
        if rest.isEmpty && !follow then .ok (.found (here ++ [name]))
        else if target.isEmpty then .error .notFound
        else match onward with
          | none => .error .tooManyLinks
          | some onward =>
            onward (if Path.isAbsolute target then [] else here) (Bytes.split Path.separator target ++ rest)
      | some _ => resolveNames fs follow onward (here ++ [name]) rest

/-- Where the names of a path lead from a location, if this many links may be followed. -/
def resolve (fs : FileSystem) (follow : Bool) : (links : Nat) → Location → List Bytes → Except AccessFault Place
  | 0 => resolveNames fs follow none
  | left + 1 => resolveNames fs follow (some (resolve fs follow left))

/-- Where a text leads, with a number of links. -/
def locateWithin (fs : FileSystem) (links : Nat) (follow : Bool) (path : Bytes) :
    Except AccessFault Place :=
  if path.isEmpty then .error .notFound
  else if path.contains 0 then .error .invalid
  else if maxPathLength < path.length then .error .nameTooLong
  else fs.resolve follow links (if Path.isAbsolute path then [] else fs.workDir)
    (Bytes.split Path.separator path)

def locate (fs : FileSystem) (follow : Bool) (path : Bytes) : Except AccessFault Place :=
  fs.locateWithin maxLinks follow path

/-- The path without links, if it leads anywhere. -/
def canonical? (fs : FileSystem) (path : Bytes) : Option Bytes :=
  match fs.locateWithin maxCanonicalLinks true path with
  | .ok (.found l) => some l.text
  | _ => none

end LosslessTree.FileSystem
