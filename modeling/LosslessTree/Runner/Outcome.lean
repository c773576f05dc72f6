import LosslessTree.Files.Access
import LosslessTree.Language.Registry
import LosslessTree.Runner.Measure
import LosslessTree.Text.Duration

/-! What came of the files of a run, and the totals over them. -/
namespace LosslessTree

/-- Why a file has no tree. -/
inductive FileError where
  | unreadable (path : Bytes) (cause : AccessError)
  | unknownLanguage (name : Bytes) (available : List Bytes)
  | undetected (path : Bytes)
  | unparsed (path : Bytes) (cause : ParseError)
  /-- A failure reported from outside. -/
  | other (message : Bytes)
  deriving DecidableEq, Repr

def FileError.message : FileError → Bytes
  | .unreadable path cause => "read " ++ path ++ ": " ++ cause.message
  | .unknownLanguage name available => Registry.unknownMessage name available
  | .undetected path => "unknown language: cannot detect language of " ++ path
  | .unparsed path cause => "parse " ++ path ++ ": " ++ cause.message
  | .other message => message

structure FileOutcome where
  path : Bytes
  language : Option Language := none
  result : Except FileError Tree
  duration : Nanoseconds := 0
  /-- What a cache of the file's own has counted. -/
  cache : CacheStats := {}

namespace FileOutcome

def names (o : FileOutcome) : KindNames := (o.language.map Language.kindNames).getD []

def error? (o : FileOutcome) : Option FileError :=
  match o.result with
  | .ok _ => none
  | .error e => some e

def tree? (o : FileOutcome) : Option Tree := o.result.toOption

def stats (o : FileOutcome) : TreeStats :=
  match o.result with
  | .ok t => TreeStats.measure o.names t
  | .error _ => {}

end FileOutcome

structure RunStats where
  discovered : Nat := 0
  parsed : Nat := 0
  failed : Nat := 0
  bytes : Nat := 0
  nodes : Nat := 0
  tokens : Nat := 0
  maxDepth : Nat := 0
  errorNodes : Nat := 0
  cache : CacheStats := {}
  duration : Nanoseconds := 0

/-- Counts one more outcome. -/
def RunStats.count (s : RunStats) (o : FileOutcome) : RunStats :=
  let s := { s with cache := s.cache.add o.cache }
  match o.result with
  | .error _ => { s with failed := s.failed + 1 }
  | .ok _ =>
    let file := o.stats
    { s with
      parsed := s.parsed + 1
      bytes := s.bytes + file.bytes
      nodes := s.nodes + file.nodes
      tokens := s.tokens + file.tokens
      errorNodes := s.errorNodes + file.errorNodes
      maxDepth := max s.maxDepth file.depth }

structure RunResult where
  files : List FileOutcome := []
  stats : RunStats := {}

namespace RunResult

/-- The outcomes of `discovered` files together with their totals. -/
def ofOutcomes (discovered : Nat) (files : List FileOutcome) : RunResult where
  files := files
  stats := files.foldl RunStats.count { discovered := discovered }

/-- The outcomes of files that were parsed one after the other. -/
def ofFiles (files : List FileOutcome) : RunResult :=
  let result := ofOutcomes files.length files
  { result with stats := { result.stats with duration := (files.map FileOutcome.duration).foldl (· + ·) 0 } }

def hasFailures (r : RunResult) : Bool := 0 < r.stats.failed
def hasErrorNodes (r : RunResult) : Bool := 0 < r.stats.errorNodes

end RunResult

namespace Registry

/-- The language of a file: the named one, else the detected one. -/
def resolve (r : Registry) (path content name : Bytes) : Except FileError Language :=
  if name.isEmpty then
    match r.detect? path content with
    | some l => .ok l
    | none => .error (.undetected path)
  else match r.lookup? name with
    | some l => .ok l
    | none => .error (.unknownLanguage name r.names)

/-- Parses a text under the name of a file; the outcome comes with the cache and the cancellation as
the parser left them. -/
def parseSource (r : Registry) (path content name : Bytes) (cache : Cache)
    (cancellation : Cancellation) : FileOutcome × Cache × Cancellation :=
  match r.resolve path content name with
  | .error e => ({ path := path, result := .error e }, cache, cancellation)
  | .ok l =>
    let p := l.parse content cache cancellation
    ({ path := path, language := some l, result := p.result.mapError (.unparsed path) },
      p.cache, p.cancellation)

end Registry
end LosslessTree
