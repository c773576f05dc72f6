import LosslessTree.Command.Flag

/-! The arguments of a command: flags and what they are set to, and everything else in order. Flags may
stand anywhere before a lone `--`. -/
namespace LosslessTree.Command

structure Arguments where
  /-- The flags that are set. -/
  values : List (String × FlagValue) := []
  positional : List Bytes := []
  deriving DecidableEq, Repr

namespace Arguments

def value? (a : Arguments) (name : String) : Option FlagValue := a.values.lookup name

def isSet (a : Arguments) (name : String) : Bool := (a.value? name).isSome

def bool (a : Arguments) (name : String) : Bool :=
  match a.value? name with
  | some (.bool b) => b
  | _ => false

def text (a : Arguments) (name : String) : Bytes :=
  match a.value? name with
  | some (.text t) => t
  | _ => []

/-- The later value of a flag counts, but a list grows. -/
def set (a : Arguments) (name : String) (value : FlagValue) : Arguments :=
  let value := match a.value? name, value with
    | some (.list old), .list new => .list (old ++ new)
    | _, value => value
  { a with values := (name, value) :: a.values.filter (·.1 != name) }

def addPositional (a : Arguments) (argument : Bytes) : Arguments :=
  { a with positional := a.positional ++ [argument] }

/-- A flag with the text that it is given. -/
structure Assignment where
  flag : Flag
  text : Bytes

/-- What an argument with dashes assigns, and whether the argument after it belongs to it. -/
structure Reading where
  assignments : List Assignment
  takesNext : Bool := false

/-- Reads `--name`, `--name=value` or `--name value`. -/
def readLong (flags : List Flag) (argument : Bytes) (next? : Option Bytes) :
    Except FlagError Reading :=
  let body := argument.drop 2
  if body.isEmpty || body.head? == some 0x2D || body.head? == some 0x3D then
    .error (.badSyntax argument)
  else
    let name := body.takeWhile (· != 0x3D)
    match flags.find? (Flag.isNamed name) with
    | none => .error (.unknown name)
    | some flag =>
      if name.length < body.length then .ok ⟨[⟨flag, body.drop (name.length + 1)⟩], false⟩
      else if flag.isSwitch then .ok ⟨[⟨flag, Flag.switchText⟩], false⟩
      else match next? with
        | some next => .ok ⟨[⟨flag, next⟩], true⟩
        | none => .error (.noValue flag.name)

/-- A group that is passed over: the flags of a test runner. -/
def foreignStart : Bytes := "test."

/-- Reads a group of letters: switches, and last maybe a flag with its value. -/
def readLetters (flags : List Flag) (next? : Option Bytes) : Bytes → Except FlagError Reading
  | [] => .ok ⟨[], false⟩
  | letter :: rest =>
    if foreignStart.isPrefixOf (letter :: rest) then .ok ⟨[], false⟩
    else match flags.find? fun f => f.letter == some letter with
      | none => .error (.unknownLetter letter (letter :: rest))
      | some flag =>
        if rest.head? == some 0x3D && 1 < rest.length then .ok ⟨[⟨flag, rest.drop 1⟩], false⟩
        else if flag.isSwitch then
          match readLetters flags next? rest with
          | .error e => .error e
          | .ok r => .ok { r with assignments := ⟨flag, Flag.switchText⟩ :: r.assignments }
        else if !rest.isEmpty then .ok ⟨[⟨flag, rest⟩], false⟩
        else match next? with
          | some next => .ok ⟨[⟨flag, next⟩], true⟩
          | none => .error (.noValueForLetter letter (letter :: rest))

def assign (a : Arguments) : List Assignment → Except FlagError Arguments
  | [] => .ok a
  | s :: rest =>
    match s.flag.read s.text with
    | .error e => .error e
    | .ok value => assign (a.set s.flag.name value) rest

/-- Whether an argument is no flag: it has no dash, or is nothing but one. -/
def isPositional (argument : Bytes) : Bool := argument.head? != some 0x2D || argument.length == 1

/-- What ends the flags. -/
def terminator : Bytes := [0x2D, 0x2D]

/-- Reads arguments in order; the first that is wrong ends the reading. -/
def readFrom (flags : List Flag) (a : Arguments) (arguments : List Bytes) :
    Except FlagError Arguments :=
  match arguments with
  | [] => .ok a
  | argument :: rest =>
    if isPositional argument then readFrom flags (a.addPositional argument) rest
    else if argument = terminator then .ok { a with positional := a.positional ++ rest }
    else
      let reading :=
        if terminator.isPrefixOf argument then readLong flags argument rest.head?
        else readLetters flags rest.head? (argument.drop 1)
      match reading with
      | .error e => .error e
      | .ok r =>
        match assign a r.assignments with
        | .error e => .error e
        | .ok a => if r.takesNext then readFrom flags a (rest.drop 1) else readFrom flags a rest
termination_by arguments.length
decreasing_by all_goals grind

def read (flags : List Flag) (arguments : List Bytes) : Except FlagError Arguments :=
  readFrom flags {} arguments

end Arguments
end LosslessTree.Command
