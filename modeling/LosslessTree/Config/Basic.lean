import LosslessTree.Report.Format
import LosslessTree.Text.Trim

/-! Configuration. Every source of configuration is a list of settings; later settings override earlier
ones. -/
namespace LosslessTree

structure Config where
  /-- The language of every input; empty means to detect it. -/
  language : Bytes := []
  format : Bytes := "text"
  color : Bytes := "auto"
  logLevel : Bytes := "warn"
  /-- Parallel workers; zero means one per processor. -/
  jobs : Int := 0
  /-- Whether all files of a run share one cache. -/
  sharedCache : Bool := false
  /-- Whether Markdown has tables. -/
  tables : Bool := true
  offsets : Bool := true
  /-- How deep trees are printed; zero means without limit. -/
  maxDepth : Int := 0
  includes : List Bytes := []
  excludes : List Bytes := []
  followSymlinks : Bool := false
  deriving DecidableEq, Repr

/-- One field and its value. -/
inductive Setting where
  | language (text : Bytes)
  | format (text : Bytes)
  | color (text : Bytes)
  | logLevel (text : Bytes)
  | jobs (n : Int)
  | sharedCache (b : Bool)
  | tables (b : Bool)
  | offsets (b : Bool)
  | maxDepth (n : Int)
  | includes (patterns : List Bytes)
  | excludes (patterns : List Bytes)
  | followSymlinks (b : Bool)
  deriving DecidableEq, Repr

namespace Config

def set (c : Config) : Setting → Config
  | .language text => { c with language := text }
  | .format text => { c with format := text }
  | .color text => { c with color := text }
  | .logLevel text => { c with logLevel := text }
  | .jobs n => { c with jobs := n }
  | .sharedCache b => { c with sharedCache := b }
  | .tables b => { c with tables := b }
  | .offsets b => { c with offsets := b }
  | .maxDepth n => { c with maxDepth := n }
  | .includes patterns => { c with includes := patterns }
  | .excludes patterns => { c with excludes := patterns }
  | .followSymlinks b => { c with followSymlinks := b }

def apply (c : Config) (settings : List Setting) : Config := settings.foldl set c

end Config
end LosslessTree
