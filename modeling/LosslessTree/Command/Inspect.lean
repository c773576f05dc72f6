import LosslessTree.Command.Session
import LosslessTree.Runner.Run

/-! The commands that parse files and report on their trees. -/
namespace LosslessTree.Command

/-- The argument that stands for standard input. -/
def inputPath : Bytes := "-"

/-- The name of standard input in reports. -/
def inputName : Bytes := "<stdin>"

/-- Prints a report of a result; a failure tells what the report was. -/
def report (purpose : Bytes) (o : Report.Options) (result : RunResult) : Job Unit := do
  let s ← get
  let printout := Report.report o s.cancellation result
  let printout := match s.room with
    | none => printout
    | some room => Report.deliver o.format room printout
  set (s.emit printout.text)
  match printout.error with
  | none => pure ()
  | some e =>
    let causes : List Cause := if e = .cancelled then [.cancelled] else []
    throw (Failure.within ⟨causes, e.message⟩ purpose)

namespace Session

/-- Parses a text under the name of a file. -/
def parseSource (session : Session) (path content language : Bytes) : Job FileOutcome :=
  Job.counted fun c =>
    let (outcome, _, c) := session.registry.parseSource path content language {} c
    (outcome, c)

def logRun (o : RunOptions) : Job Unit :=
  Job.log .debug "starting run"
    [.ofList "paths" o.paths, ⟨"language", o.language⟩, ⟨"jobs", Bytes.ofInt o.jobs⟩,
      .ofBool "shared_cache" o.sharedCache]

/-- Parses files and directories. -/
def parsePaths (session : Session) (paths : List Bytes) : Job RunResult := do
  let options := { RunOptions.ofConfig session.config paths with workingDir := session.workDir }
  logRun options
  let files := (← get).files
  match ← Job.counted (session.registry.run files options) with
  | .error f => throw (f.within "parse run failed")
  | .ok answer =>
    if answer.result.stats.discovered = 0 then
      Job.log .debug "discovered files" [⟨"files_discovered", Bytes.ofNat 0⟩]
    match answer.stopped with
    | some f => throw (f.within "parse run failed")
    | none => pure answer.result

/-- Parses what the arguments name: standard input, or files and directories. -/
def parse (session : Session) (paths : List Bytes) : Job RunResult := do
  if paths.contains inputPath then
    if paths.length ≠ 1 then
      throw (Failure.ofUsage (Quoted.encode inputPath ++ " cannot be combined with other paths"))
    let content ← Job.readInput
    pure (.ofFiles [← session.parseSource inputName content session.config.language])
  else session.parsePaths paths

end Session

/-- Logs the files that have no tree. -/
def logFailures (result : RunResult) : Job Unit :=
  result.files.forM fun f =>
    match f.error? with
    | none => pure ()
    | some e => Job.log .error "parse failed" [⟨"path", f.path⟩, ⟨"error", e.message⟩]

/-- Fails if a run calls for it. -/
def checkResult (result : RunResult) (strict : Bool) : Job Unit :=
  match result.failure? strict with
  | none => pure ()
  | some f => throw f

/-- Prints the trees of files. -/
def parse (a : Arguments) : Job Unit := do
  let session ← Session.load a a.inspectionSettings
  let result ← session.parse a.positional
  let config := session.config
  match Report.Format.ofNameOrText? config.format with
  | none => throw (Failure.ofUsage (Report.Format.unknownMessage config.format))
  | some format =>
    report "report results"
      { format, color := session.colorMode, offsets := config.offsets, maxDepth := config.maxDepth
        summary := a.bool "summary", compact := a.bool "compact", workingDir := session.workDir }
      result
    logFailures result
    checkResult result (a.bool "strict")

/-- The format of statistics. -/
def statsFormat (c : Config) (summaryOnly : Bool) : Report.Format :=
  if c.format = Bytes.ofString "json" then .json else if summaryOnly then .summary else .stats

/-- Prints the measures of trees. In JSON the trees themselves are cut at their roots. -/
def stats (a : Arguments) : Job Unit := do
  let session ← Session.load a a.inspectionSettings
  let result ← session.parse a.positional
  let format := statsFormat session.config (a.bool "summary-only")
  report "report results"
    { format, color := session.colorMode, summary := true, workingDir := session.workDir
      maxDepth := if format = .json then 1 else 0 }
    result
  Job.log .debug "cache"
    [.ofBool "shared_cache" session.config.sharedCache,
      ⟨"cache_hit_rate", Decimal.ofFloat result.stats.cache.hitRate⟩]
  logFailures result
  checkResult result false

end LosslessTree.Command
