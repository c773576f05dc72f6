import LosslessTree.Config.Basic
import LosslessTree.Language.Registry

/-! What a run over many files is asked to do. -/
namespace LosslessTree

structure RunOptions where
  /-- Files and directories; nothing stands for the working directory. -/
  paths : List Bytes := []
  /-- Where relative paths start; empty stands for the working directory. -/
  workingDir : Bytes := []
  /-- The language of every file; empty means to detect it. -/
  language : Bytes := []
  includes : List Bytes := []
  excludes : List Bytes := []
  followSymlinks : Bool := false
  /-- How many workers there are; none of the results depend on it. -/
  jobs : Int := 0
  sharedCache : Bool := false
  deriving DecidableEq, Repr

namespace RunOptions

def ofConfig (c : Config) (paths : List Bytes) : RunOptions where
  paths := paths
  language := c.language
  includes := c.includes
  excludes := c.excludes
  followSymlinks := c.followSymlinks
  jobs := c.jobs
  sharedCache := c.sharedCache

def inputs (o : RunOptions) : List Bytes := if o.paths.isEmpty then ["."] else o.paths

/-- The extensions of files that are taken from directories. -/
def extensions (o : RunOptions) (r : Registry) : List Bytes :=
  match if o.language.isEmpty then none else r.lookup? o.language with
  | some l => l.extensions
  | none => r.extensions

end RunOptions
end LosslessTree
