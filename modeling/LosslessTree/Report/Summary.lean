import LosslessTree.Number.Decimal
import LosslessTree.Report.Style
import LosslessTree.Runner.Outcome

/-! Totals of a run, as one line and as a block. -/
namespace LosslessTree.Report

/-- The figures of a summary. -/
structure Totals where
  discovered : Int := 0
  parsed : Int := 0
  failed : Int := 0
  bytes : Int := 0
  nodes : Int := 0
  tokens : Int := 0
  maxDepth : Int := 0
  errorNodes : Int := 0
  cacheTokens : Int := 0
  cacheNodes : Int := 0
  hitRate : Float := 0
  duration : Nanoseconds := 0

def Totals.ofStats (s : RunStats) : Totals where
  discovered := s.discovered
  parsed := s.parsed
  failed := s.failed
  bytes := s.bytes
  nodes := s.nodes
  tokens := s.tokens
  maxDepth := s.maxDepth
  errorNodes := s.errorNodes
  cacheTokens := s.cache.tokens
  cacheNodes := s.cache.nodes
  hitRate := s.cache.hitRate
  duration := s.duration

def plural (n : Int) (one many : String) : Bytes := if n = 1 then one else many

/-- For instance `3 files parsed, 412 nodes, 1280 tokens, 1 failed, 2 error nodes in 4ms`. -/
def summaryLine (theme : Theme) (s : Totals) : Bytes :=
  let files : Bytes := Bytes.ofInt s.parsed ++ " " ++ plural s.parsed "file" "files" ++ " parsed"
  let clean := s.failed == 0 && s.errorNodes == 0
  let parts : List Bytes :=
    [if clean then theme.success.render files else files,
      Bytes.ofInt s.nodes ++ " nodes", Bytes.ofInt s.tokens ++ " tokens"] ++
    (if s.failed ≤ 0 then [] else [theme.failure.render (Bytes.ofInt s.failed ++ " failed")]) ++
    (if s.errorNodes ≤ 0 then []
      else [theme.warning.render
        (Bytes.ofInt s.errorNodes ++ " error " ++ plural s.errorNodes "node" "nodes")])
  Bytes.join ", " parts ++ theme.dim.render (" in " ++ Duration.timing s.duration) ++ "\n"

/-- The cells before the values of a block. -/
def labelWidth : Nat := 20

def summaryRow (label : String) (value : Bytes) : Bytes :=
  "  " ++ Cells.padRight (label ++ ":") labelWidth ++ value ++ "\n"

def summaryBlock (theme : Theme) (s : Totals) : Bytes :=
  let number (label : String) (n : Int) : Bytes := summaryRow label (Bytes.ofInt n)
  let styled (label : String) (style : Style) (n : Int) : Bytes :=
    if n ≤ 0 then [] else summaryRow label (style.render (Bytes.ofInt n))
  let rate := Decimal.fixed 1 (s.hitRate * 100)
  "\n" ++ theme.title.render "Summary" ++ "\n" ++ Bytes.times 40 "-" ++ "\n" ++
  number "Files discovered" s.discovered ++ number "Files parsed" s.parsed ++
  styled "Files failed" theme.failure s.failed ++ "\n" ++
  number "Bytes" s.bytes ++ number "Nodes" s.nodes ++ number "Tokens" s.tokens ++
  number "Max depth" s.maxDepth ++ styled "Error nodes" theme.warning s.errorNodes ++ "\n" ++
  summaryRow "Cache entries"
    (Bytes.ofInt s.cacheTokens ++ " tokens, " ++ Bytes.ofInt s.cacheNodes ++ " nodes") ++
  summaryRow "Cache hit rate" (rate ++ "%") ++ "\n" ++
  (if 0 < s.failed then theme.failure.render "Some files could not be parsed"
    else if 0 < s.errorNodes then theme.warning.render "Parsed with syntax errors"
    else theme.success.render "All files parsed cleanly") ++ "\n"

end LosslessTree.Report
