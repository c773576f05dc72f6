import LosslessTree.Command.Failure
import LosslessTree.Discovery.Walk

/-! Parsing many files. Outcomes come in the order of the paths. -/
namespace LosslessTree

namespace Registry

/-- Reads and parses one file. -/
def parseFile (r : Registry) (files : FileSystem) (path name : Bytes) (cache : Cache)
    (c : Cancellation) : FileOutcome × Cache × Cancellation :=
  match files.readFile path with
  | .error e => ({ path := path, result := .error (.unreadable path e) }, cache, c)
  | .ok content => r.parseSource path content name cache c

/-- Parses files one after the other, each with a cache of its own, until a check says to stop. -/
def parseEach (r : Registry) (files : FileSystem) (name : Bytes) (c : Cancellation) :
    List Bytes → List FileOutcome × Cancellation
  | [] => ([], c)
  | path :: rest =>
    if c.isDue then ([], c)
    else
      let (outcome, cache, c) := r.parseFile files path name {} c.next
      let (outcomes, c) := parseEach r files name c rest
      ({ outcome with cache := cache.stats } :: outcomes, c)

/-- Parses files one after the other through one cache, until a check says to stop. -/
def parseShared (r : Registry) (files : FileSystem) (name : Bytes) (cache : Cache) (c : Cancellation) :
    List Bytes → List FileOutcome × Cache × Cancellation
  | [] => ([], cache, c)
  | path :: rest =>
    if c.isDue then ([], cache, c)
    else
      let (outcome, cache, c) := r.parseFile files path name cache c.next
      let (outcomes, cache, c) := parseShared r files name cache c rest
      (outcome :: outcomes, cache, c)

end Registry

/-- What a run leaves behind; one that was stopped has the outcomes so far. -/
structure RunAnswer where
  result : RunResult
  stopped : Option Failure := none

/-- The result of parsing the files that were found. -/
def Registry.parseAll (r : Registry) (files : FileSystem) (o : RunOptions) (paths : List Bytes)
    (c : Cancellation) : RunResult × Cancellation :=
  if o.sharedCache then
    let (outcomes, cache, c) := r.parseShared files o.language {} c paths
    let result := RunResult.ofOutcomes paths.length outcomes
    ({ result with stats := { result.stats with cache := cache.stats } }, c)
  else
    let (outcomes, c) := r.parseEach files o.language c paths
    (RunResult.ofOutcomes paths.length outcomes, c)

def Registry.run (r : Registry) (files : FileSystem) (o : RunOptions) (c : Cancellation) :
    Except Failure RunAnswer × Cancellation :=
  if !o.language.isEmpty && (r.lookup? o.language).isNone then
    (.error (.ofFileError (.unknownLanguage o.language r.names)), c)
  else match Discovery.discover r files o c with
    | (.error f, c) => (.error f, c)
    | (.ok [], c) => (.ok { result := {} }, c)
    | (.ok paths, c) =>
      let (result, c) := r.parseAll files o paths c
      let stopped := if c.isDue then some (Failure.cancelled.within "run cancelled") else none
      (.ok { result, stopped }, c.next)

end LosslessTree
