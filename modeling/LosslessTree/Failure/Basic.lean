import LosslessTree.Files.Access
import LosslessTree.Language.Cancellation

/-! Failures: a message, and the causes that later decide what is done about it. A failure that wraps
another one keeps its causes. -/
namespace LosslessTree

inductive Cause where
  | parseFailures | errorNodes | invalidConfig | usage
  | invalidEdit | overlappingEdits | editSpansTokens | tokenChanged
  | unknownLanguage | noSnapshot | notFound | permissionDenied | isDirectory | stale
  | cancelled | exists | notExist | invalidSetting
  deriving DecidableEq, Repr

structure Failure where
  causes : List Cause := []
  message : Bytes
  deriving DecidableEq, Repr

namespace Failure

def has (f : Failure) (c : Cause) : Bool := f.causes.contains c

/-- Says where a failure came up. -/
def within (f : Failure) (context : Bytes) : Failure :=
  { f with message := context ++ ": " ++ f.message }

/-- The failure as an instance of a more general cause. -/
def under (f : Failure) (cause : Cause) (text : Bytes) : Failure :=
  { causes := cause :: f.causes, message := text ++ ": " ++ f.message }

def cancelled : Failure := ⟨[.cancelled], Cancellation.message⟩

def ofAccess (e : AccessError) : Failure where
  causes := match e.fault with
    | .notFound => [.notExist]
    | .exists => [.exists]
    | _ => []
  message := e.message

end Failure
end LosslessTree
