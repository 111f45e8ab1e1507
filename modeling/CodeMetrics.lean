import CodeMetrics.Command.Analyze
import CodeMetrics.Command.Compare
import CodeMetrics.Command.Execution
import CodeMetrics.Command.Fault
import CodeMetrics.Command.Line
import CodeMetrics.Command.Usage
import CodeMetrics.Command.Value
import CodeMetrics.Comparison.Basic
import CodeMetrics.Comparison.Json
import CodeMetrics.Comparison.Markdown
import CodeMetrics.Comparison.Metric
import CodeMetrics.Comparison.Number
import CodeMetrics.Comparison.Text
import CodeMetrics.Decimal.Binary
import CodeMetrics.Decimal.Fixed
import CodeMetrics.Decimal.Layout
import CodeMetrics.Decimal.Shortest
import CodeMetrics.Error
import CodeMetrics.Glob.Basic
import CodeMetrics.Glob.Fault
import CodeMetrics.Glob.Match
import CodeMetrics.Json.Reader
import CodeMetrics.Json.Record
import CodeMetrics.Json.Value
import CodeMetrics.Json.Writer
import CodeMetrics.Language.Basic
import CodeMetrics.Language.Descriptor
import CodeMetrics.Language.Detection
import CodeMetrics.Language.Go
import CodeMetrics.Language.Grammar
import CodeMetrics.Language.Python
import CodeMetrics.Language.Rust
import CodeMetrics.Language.Selection
import CodeMetrics.Language.TypeScript
import CodeMetrics.Main
import CodeMetrics.Measure.Abc
import CodeMetrics.Measure.Classes
import CodeMetrics.Measure.Complexity
import CodeMetrics.Measure.File
import CodeMetrics.Measure.Halstead
import CodeMetrics.Measure.Lines
import CodeMetrics.Measure.Maintainability
import CodeMetrics.Measure.Metrics
import CodeMetrics.Measure.Parsed
import CodeMetrics.Measure.Routine
import CodeMetrics.Measure.Sum
import CodeMetrics.Path
import CodeMetrics.Project.Discovery
import CodeMetrics.Project.FileSystem
import CodeMetrics.Project.Run
import CodeMetrics.Project.Snapshot
import CodeMetrics.Project.Stage
import CodeMetrics.Proofs.Analysis
import CodeMetrics.Proofs.Balance
import CodeMetrics.Proofs.ChainConditions
import CodeMetrics.Proofs.Chains
import CodeMetrics.Proofs.Characters
import CodeMetrics.Proofs.ClassGroups
import CodeMetrics.Proofs.Classification
import CodeMetrics.Proofs.Collection
import CodeMetrics.Proofs.Comments
import CodeMetrics.Proofs.Conservation
import CodeMetrics.Proofs.Constructs
import CodeMetrics.Proofs.CsvText
import CodeMetrics.Proofs.Decimals
import CodeMetrics.Proofs.Decisions
import CodeMetrics.Proofs.Decoding
import CodeMetrics.Proofs.Discovery
import CodeMetrics.Proofs.Endings
import CodeMetrics.Proofs.Entries
import CodeMetrics.Proofs.Faults
import CodeMetrics.Proofs.Files
import CodeMetrics.Proofs.Findings
import CodeMetrics.Proofs.Grammar
import CodeMetrics.Proofs.Heap
import CodeMetrics.Proofs.Isolation
import CodeMetrics.Proofs.JsonGrammar
import CodeMetrics.Proofs.JsonText
import CodeMetrics.Proofs.Layouts
import CodeMetrics.Proofs.LineMarks
import CodeMetrics.Proofs.Lists
import CodeMetrics.Proofs.MarkdownTable
import CodeMetrics.Proofs.Merging
import CodeMetrics.Proofs.Naming
import CodeMetrics.Proofs.Nesting
import CodeMetrics.Proofs.NestingCost
import CodeMetrics.Proofs.Offenders
import CodeMetrics.Proofs.Opposites
import CodeMetrics.Proofs.OwnCounts
import CodeMetrics.Proofs.Padded
import CodeMetrics.Proofs.PathTexts
import CodeMetrics.Proofs.Paths
import CodeMetrics.Proofs.Polarities
import CodeMetrics.Proofs.Pool
import CodeMetrics.Proofs.Positions
import CodeMetrics.Proofs.Regions
import CodeMetrics.Proofs.ReportLayouts
import CodeMetrics.Proofs.ReportText
import CodeMetrics.Proofs.Resolution
import CodeMetrics.Proofs.Reversal
import CodeMetrics.Proofs.Revision
import CodeMetrics.Proofs.RevisionMeasures
import CodeMetrics.Proofs.RevisionSites
import CodeMetrics.Proofs.Rollup
import CodeMetrics.Proofs.Rounding
import CodeMetrics.Proofs.Routines
import CodeMetrics.Proofs.Samples
import CodeMetrics.Proofs.SarifResults
import CodeMetrics.Proofs.Scientific
import CodeMetrics.Proofs.Scopes
import CodeMetrics.Proofs.SharedConditions
import CodeMetrics.Proofs.Shortest
import CodeMetrics.Proofs.ShownPaths
import CodeMetrics.Proofs.ShownSteps
import CodeMetrics.Proofs.Sites
import CodeMetrics.Proofs.StraightLine
import CodeMetrics.Proofs.Tally
import CodeMetrics.Proofs.VisitedSites
import CodeMetrics.Proofs.Vocabulary
import CodeMetrics.Proofs.Walks
import CodeMetrics.Proofs.Whole
import CodeMetrics.Report.Csv
import CodeMetrics.Report.File
import CodeMetrics.Report.Format
import CodeMetrics.Report.Heap
import CodeMetrics.Report.Json
import CodeMetrics.Report.Offender
import CodeMetrics.Report.Project
import CodeMetrics.Report.Render
import CodeMetrics.Report.Rollup
import CodeMetrics.Report.Sarif
import CodeMetrics.Settings.Basic
import CodeMetrics.Settings.Read
import CodeMetrics.Syntax.Fault
import CodeMetrics.Syntax.Flat
import CodeMetrics.Syntax.Json
import CodeMetrics.Syntax.Pattern
import CodeMetrics.Syntax.Position
import CodeMetrics.Syntax.Site
import CodeMetrics.Syntax.Source
import CodeMetrics.Syntax.Tree
import CodeMetrics.Text.Blank
import CodeMetrics.Text.Digits
import CodeMetrics.Text.Lines
import CodeMetrics.Text.Printable
import CodeMetrics.Text.Quoted
import CodeMetrics.Text.Shape
import CodeMetrics.Text.Utf8
import CodeMetrics.Text.Word
import CodeMetrics.Yaml.Cursor
import CodeMetrics.Yaml.Node
import CodeMetrics.Yaml.Scalar
import CodeMetrics.Yaml.Token
