import LosslessTree.Json.Layout
import LosslessTree.Report.Outline
import LosslessTree.Report.Summary
import LosslessTree.Report.Table
import LosslessTree.Report.TreeText

/-! Reports of a run in each format. -/
namespace LosslessTree.Report

inductive ReportError where
  | cancelled
  /-- The output took no more. -/
  | outputFull
  /-- The output took no more of a text too large to be held back. -/
  | jsonUnwritten
  deriving DecidableEq, Repr

/-- What an output that is full says. -/
def fullMessage : String := "no space left"

def ReportError.message : ReportError → Bytes
  | .cancelled => "report cancelled: " ++ Cancellation.message
  | .outputFull => fullMessage
  | .jsonUnwritten => "write JSON: " ++ fullMessage

structure Printout where
  /-- How many files were reported. -/
  count : Nat
  text : Bytes
  error : Option ReportError := none

def emptyReport (theme : Theme) : Printout where
  count := 0
  text := theme.warning.render "No files to parse." ++ [Bytes.newline]

/-- One file of a text report; `index` files come before it. -/
def fileText (o : Options) (withHeaders : Bool) (index : Nat) (f : FileOutcome) : Bytes :=
  let path := o.theme.filePath.render (o.displayPath f.path)
  match f.result with
  | .error e => path ++ ": " ++ o.theme.error.render ("error: " ++ e.message) ++ "\n"
  | .ok t =>
    let language := (f.language.map Language.name).getD []
    let header : Bytes :=
      if withHeaders then
        (if index = 0 then [] else [Bytes.newline]) ++ path ++ " " ++
          o.theme.dim.render ("(" ++ language ++ ")") ++ "\n"
      else []
    header ++ treeText o f.names t

/-- The files one after the other, with a check for cancellation before each; `done` is what the files
before them gave, last first. -/
def textFiles (o : Options) (withHeaders : Bool) (cancellation : Cancellation) (index : Nat)
    (done : List Bytes) : List FileOutcome → Printout
  | [] => ⟨index, done.reverse.flatten, none⟩
  | f :: rest =>
    if cancellation.isDue then ⟨index, done.reverse.flatten, some .cancelled⟩
    else textFiles o withHeaders cancellation.next (index + 1)
      (fileText o withHeaders index f :: done) rest

def textReport (o : Options) (cancellation : Cancellation) (r : RunResult) : Printout :=
  if r.files.isEmpty then emptyReport o.theme
  else
    let report := textFiles o (1 < r.files.length) cancellation 0 [] r.files
    if report.error.isNone && o.summary then
      { report with text := report.text ++ 0x0A :: summaryLine o.theme (.ofStats r.stats) }
    else report

def statsReport (o : Options) (withTable : Bool) (r : RunResult) : Printout :=
  if r.files.isEmpty then emptyReport o.theme
  else
    let rows := r.files.map fun f => TableRow.ofOutcome (o.displayPath f.path) f
    { count := r.files.length
      text := (if withTable then table o.theme 0 rows r.stats else []) ++
        if o.summary then summaryBlock o.theme (.ofStats r.stats) else [] }

/-- The version of the JSON layout. -/
def jsonVersion : String := "1.0.0"

def fileJson (o : Options) (f : FileOutcome) : Json :=
  let result : List (Bytes × Json) := match f.result with
    | .error e => [("error", .string e.message)]
    | .ok t =>
      let s := f.stats
      [("stats", .object [("bytes", .ofNat s.bytes), ("nodes", .ofNat s.nodes),
          ("tokens", .ofNat s.tokens), ("depth", .ofNat s.depth), ("errorNodes", .ofNat s.errorNodes)]),
        ("tree", (outline o f.names 0 0 t).toJson o.offsets)]
  .object (("path", .string (o.displayPath f.path)) ::
    match f.language with
    | some l => ("language", .string l.name) :: result
    | none => result)

def statsJson (s : RunStats) : Json :=
  .object [("filesParsed", .ofNat s.parsed), ("filesFailed", .ofNat s.failed),
    ("bytes", .ofNat s.bytes), ("nodes", .ofNat s.nodes), ("tokens", .ofNat s.tokens),
    ("maxDepth", .ofNat s.maxDepth), ("errorNodes", .ofNat s.errorNodes),
    ("cacheHitRate", .number (Decimal.ofFloat s.cache.hitRate))]

def resultJson (o : Options) (r : RunResult) : Json :=
  .object [("version", .string jsonVersion), ("files", .array (r.files.map (fileJson o))),
    ("summary", statsJson r.stats)]

/-- Whether one of `n` checks in a row is told to stop. -/
def stopsWithin (c : Cancellation) (n : Nat) : Bool :=
  match c.left with
  | none => false
  | some left => left < n

def jsonReport (o : Options) (cancellation : Cancellation) (r : RunResult) : Printout :=
  if stopsWithin cancellation r.files.length then ⟨0, [], some .cancelled⟩
  else
    let value := resultJson o r
    let pieces := if o.compact then Json.compact value else Json.pretty Json.defaultWidth value
    { count := r.files.length
      text := if o.color.isEnabled then Json.colored pieces else Json.plain pieces }

/-- The report of a result. -/
def report (o : Options) (cancellation : Cancellation) (r : RunResult) : Printout :=
  match o.format with
  | .text => textReport o cancellation r
  | .json => jsonReport o cancellation r
  | .stats => statsReport o true r
  | .summary => statsReport { o with summary := true } false r

/-- How much output is held back before it is passed on. -/
def bufferSize : Nat := 65536

/-- What arrives at an output that takes `room` bytes. A JSON text larger than the buffer is passed on at
once, so its writer is the first to hear of the failure. -/
def deliver (format : Format) (room : Nat) (r : Printout) : Printout :=
  if r.text.length ≤ room then r
  else
    let atOnce := format == .json && bufferSize < r.text.length
    { count := if atOnce then 0 else r.count
      text := r.text.take room
      error := r.error.orElse fun _ => some (if atOnce then .jsonUnwritten else .outputFull) }

end LosslessTree.Report
