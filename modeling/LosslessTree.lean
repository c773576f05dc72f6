import LosslessTree.Bytes.Basic
import LosslessTree.Bytes.Utf8
import LosslessTree.Command.Arguments
import LosslessTree.Command.Catalog
import LosslessTree.Command.Configuration
import LosslessTree.Command.Edit
import LosslessTree.Command.Failure
import LosslessTree.Command.Flag
import LosslessTree.Command.Help
import LosslessTree.Command.Inspect
import LosslessTree.Command.Languages
import LosslessTree.Command.Lookup
import LosslessTree.Command.Program
import LosslessTree.Command.Reach
import LosslessTree.Command.Session
import LosslessTree.Command.Shell
import LosslessTree.Command.Spec
import LosslessTree.Command.Suggestion
import LosslessTree.Config.Basic
import LosslessTree.Config.Decode
import LosslessTree.Config.Encode
import LosslessTree.Config.Environment
import LosslessTree.Config.Load
import LosslessTree.Config.Locate
import LosslessTree.Config.Pattern
import LosslessTree.Config.Template
import LosslessTree.Config.Validate
import LosslessTree.Cursor.Basic
import LosslessTree.Cursor.Dump
import LosslessTree.Cursor.Replace
import LosslessTree.Cursor.Search
import LosslessTree.Cursor.View
import LosslessTree.Digest.Sha256
import LosslessTree.Discovery.Glob
import LosslessTree.Discovery.Walk
import LosslessTree.Edit.Basic
import LosslessTree.Edit.Batch
import LosslessTree.Edit.Tree
import LosslessTree.Failure.Basic
import LosslessTree.Files.Access
import LosslessTree.Files.Backup
import LosslessTree.Files.Basic
import LosslessTree.Files.Resolve
import LosslessTree.Files.Snapshot
import LosslessTree.Json.Basic
import LosslessTree.Json.Layout
import LosslessTree.Json.Reader
import LosslessTree.Language.Calc.Evaluation
import LosslessTree.Language.Calc.Lexer
import LosslessTree.Language.Calc.Parser
import LosslessTree.Language.Cancellation
import LosslessTree.Language.Decl.Lexer
import LosslessTree.Language.Decl.Parser
import LosslessTree.Language.Decl.View
import LosslessTree.Language.Detection
import LosslessTree.Language.Feed
import LosslessTree.Language.Lexeme
import LosslessTree.Language.Markdown.Block
import LosslessTree.Language.Markdown.BlockParser
import LosslessTree.Language.Markdown.Document
import LosslessTree.Language.Markdown.HtmlStart
import LosslessTree.Language.Markdown.Line
import LosslessTree.Language.Markdown.LinkDefinition
import LosslessTree.Language.Markdown.OpenBlock
import LosslessTree.Language.Markdown.Symbol
import LosslessTree.Language.Markdown.Table
import LosslessTree.Language.Markdown.Token
import LosslessTree.Language.Registry
import LosslessTree.Logging.Line
import LosslessTree.Main
import LosslessTree.Number.Binary64
import LosslessTree.Number.Decimal
import LosslessTree.Number.FloatText
import LosslessTree.Proofs.Calc.Grammar
import LosslessTree.Proofs.Calc.Reading
import LosslessTree.Proofs.Decl.Reading
import LosslessTree.Proofs.Language.Feed
import LosslessTree.Proofs.Language.Lexeme
import LosslessTree.Proofs.Language.Parsing
import LosslessTree.Proofs.Tree.Builder
import LosslessTree.Proofs.Tree.Checkpoint
import LosslessTree.Proofs.Tree.Content
import LosslessTree.Proofs.Tree.Fidelity
import LosslessTree.Report.Basic
import LosslessTree.Report.Format
import LosslessTree.Report.Outline
import LosslessTree.Report.Style
import LosslessTree.Report.Summary
import LosslessTree.Report.Table
import LosslessTree.Report.TreeText
import LosslessTree.Runner.Measure
import LosslessTree.Runner.Options
import LosslessTree.Runner.Outcome
import LosslessTree.Runner.Run
import LosslessTree.Text.Base64
import LosslessTree.Text.Cells
import LosslessTree.Text.CommaList
import LosslessTree.Text.Duration
import LosslessTree.Text.Integer
import LosslessTree.Text.Path
import LosslessTree.Text.Quoted
import LosslessTree.Text.Range
import LosslessTree.Text.Trim
import LosslessTree.Tree.Basic
import LosslessTree.Tree.Builder
import LosslessTree.Tree.Cache
import LosslessTree.Tree.Fingerprint
import LosslessTree.Tree.Update
import LosslessTree.Unicode.Grapheme
import LosslessTree.Unicode.Graphic
import LosslessTree.Unicode.Letter
import LosslessTree.Unicode.Lower
import LosslessTree.Unicode.Ranges
import LosslessTree.Unicode.Wide
import LosslessTree.Yaml.Node
import LosslessTree.Yaml.Place
import LosslessTree.Yaml.Problem
import LosslessTree.Yaml.Resolve
import LosslessTree.Yaml.Scalar
import LosslessTree.Yaml.Scanner
import LosslessTree.Yaml.Writer
import LosslessTree.Proofs.Tree.Cache
import LosslessTree.Proofs.Tree.Sharing
import LosslessTree.Proofs.Cursor.Place
import LosslessTree.Proofs.Cursor.Search
import LosslessTree.Proofs.Edit.Tree
import LosslessTree.Proofs.Command.Edit
import LosslessTree.Proofs.Language.Revision
import LosslessTree.Proofs.Calc.Revision
import LosslessTree.Proofs.Decl.Revision
import LosslessTree.Proofs.Edit.Reparse
import LosslessTree.Proofs.Cursor.Navigation
import LosslessTree.Proofs.Calc.Evaluation
import LosslessTree.Proofs.Cursor.Replace
import LosslessTree.Proofs.Decl.Grammar
import LosslessTree.Proofs.Calc.Shape
import LosslessTree.Proofs.Markdown.Extent
import LosslessTree.Proofs.Markdown.Token
import LosslessTree.Proofs.Markdown.Writer
import LosslessTree.Proofs.Markdown.Lossless
import LosslessTree.Proofs.Language.Cancellation
import LosslessTree.Proofs.Calc.Cancellation
import LosslessTree.Proofs.Decl.Cancellation
import LosslessTree.Proofs.Markdown.Cancellation
import LosslessTree.Proofs.Runner.Crew
import LosslessTree.Proofs.Runner.Sequential
import LosslessTree.Proofs.Runner.Schedule
import LosslessTree.Proofs.Runner.Progress
import LosslessTree.Proofs.Discovery.Order
import LosslessTree.Proofs.Runner.Concurrency
import LosslessTree.Proofs.Decl.Recovery
import LosslessTree.Proofs.Edit.History
import LosslessTree.Proofs.Config.Environment
import LosslessTree.Proofs.Config.Precedence
import LosslessTree.Proofs.Files.Resolve
import LosslessTree.Proofs.Files.Sidecar
import LosslessTree.Proofs.Files.Backup
import LosslessTree.Proofs.Edit.Batch
import LosslessTree.Proofs.Cursor.Covering
import LosslessTree.Proofs.Edit.Single
import LosslessTree.Proofs.Markdown.InPlace
import LosslessTree.Proofs.Cursor.Deepest
import LosslessTree.Proofs.Markdown.LineBreak
import LosslessTree.Proofs.Markdown.Composition
import LosslessTree.Proofs.Markdown.Edge
import LosslessTree.Proofs.Language.Trivia
import LosslessTree.Proofs.Discovery.Selection
import LosslessTree.Proofs.Cursor.Preorder
import LosslessTree.Proofs.Text.Quoted
import LosslessTree.Proofs.Report.Printers
import LosslessTree.Proofs.Discovery.Following
import LosslessTree.Tree.Element
import LosslessTree.Tree.Interner
import LosslessTree.Proofs.Tree.Element
import LosslessTree.Proofs.Tree.Kept
import LosslessTree.Proofs.Tree.Making
import LosslessTree.Proofs.Tree.Measure
import LosslessTree.Proofs.Config.Search
import LosslessTree.Proofs.Tree.Traversal
