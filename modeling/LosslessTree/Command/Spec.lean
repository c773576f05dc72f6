import LosslessTree.Command.Flag

/-! What is known of a command before it runs. Commands form a tree; each is found by its path, the names
on the way from the program itself. -/
namespace LosslessTree.Command

/-- How many arguments a command takes besides its flags. -/
inductive Arity where
  | any | none
  | exactly (n : Nat)
  deriving DecidableEq, Repr

inductive Action where
  | parse | stats | edit | init | languages
  | showConfig | locateConfig | listVariables | checkConfig
  | version | help
  /-- Prints a script for a shell; the scripts are not part of this library. -/
  | completion
  deriving DecidableEq, Repr

structure Spec where
  path : List String
  /-- What follows the name in the usage line. -/
  parameters : String := ""
  aliases : List String := []
  short : String
  long : String := ""
  flags : List Flag := []
  arity : Arity := .any
  /-- A command without an action only groups others. -/
  action : Option Action := none
  /-- Flags of which one has to be given and no two may be. -/
  choice : List String := []
  /-- Whether the usage line mentions that there are flags. -/
  mentionsFlags : Bool := true
  deriving DecidableEq, Repr

/-- The name of the program. -/
def programName : String := "syntree"

namespace Spec

def name (s : Spec) : String := s.path.getLast?.getD programName

/-- The command as it is typed. -/
def typed (s : Spec) : Bytes := Bytes.ofString (" ".intercalate (programName :: s.path))

def isRunnable (s : Spec) : Bool := s.action.isSome

def helpFlag (s : Spec) : Flag where
  name := "help"
  letter := some 0x68
  kind := .bool
  usage := "help for " ++ s.name

/-- Whether a word is the name of a command or another name for it. -/
def answersTo (word : Bytes) (s : Spec) : Bool :=
  (s.name :: s.aliases).any fun name => Bytes.ofString name == word

end Spec
end LosslessTree.Command
