import InterpolationLint.Analysis
import InterpolationLint.Command.Basic
import InterpolationLint.Command.Execute
import InterpolationLint.Command.Init
import InterpolationLint.Command.Lint
import InterpolationLint.CommandLine.Basic
import InterpolationLint.CommandLine.Parse
import InterpolationLint.Config.Basic
import InterpolationLint.Config.Readers
import InterpolationLint.Config.Yaml
import InterpolationLint.Diagnostic.Basic
import InterpolationLint.Diagnostic.Finding
import InterpolationLint.FileTree.Access
import InterpolationLint.FileTree.Basic
import InterpolationLint.FileTree.Collection
import InterpolationLint.FileTree.Walk
import InterpolationLint.Glob.Basic
import InterpolationLint.Glob.Match
import InterpolationLint.Glob.Parse
import InterpolationLint.Json.Basic
import InterpolationLint.Main
import InterpolationLint.NameMap
import InterpolationLint.Outcome.Basic
import InterpolationLint.Outcome.Violation
import InterpolationLint.Path
import InterpolationLint.Proofs.Analysis
import InterpolationLint.Proofs.ByteOrderMark
import InterpolationLint.Proofs.Command.ExitCode
import InterpolationLint.Proofs.Command.Selection
import InterpolationLint.Proofs.Composition
import InterpolationLint.Proofs.Config.Switches
import InterpolationLint.Proofs.Delivery
import InterpolationLint.Proofs.Diagnostic.Distinct
import InterpolationLint.Proofs.Diagnostic.Failure
import InterpolationLint.Proofs.Diagnostic.Highlight
import InterpolationLint.Proofs.Diagnostic.Repeats
import InterpolationLint.Proofs.Diagnostic.Selection
import InterpolationLint.Proofs.Except
import InterpolationLint.Proofs.FileTree.Collection
import InterpolationLint.Proofs.FileTree.Walk
import InterpolationLint.Proofs.LineEnds
import InterpolationLint.Proofs.Outcome.Accounting
import InterpolationLint.Proofs.Outcome.Algebra
import InterpolationLint.Proofs.Outcome.Files
import InterpolationLint.Proofs.Outcome.Sort
import InterpolationLint.Proofs.Path
import InterpolationLint.Proofs.Report.Reading
import InterpolationLint.Proofs.Run
import InterpolationLint.Proofs.Scan.Budget
import InterpolationLint.Proofs.Scan.Continuation
import InterpolationLint.Proofs.Scan.Cursor
import InterpolationLint.Proofs.Scan.Failure
import InterpolationLint.Proofs.Scan.Layout
import InterpolationLint.Proofs.Scan.Leaves
import InterpolationLint.Proofs.Scan.Lexeme
import InterpolationLint.Proofs.Scan.LineEnds
import InterpolationLint.Proofs.Scan.Nesting
import InterpolationLint.Proofs.Scan.Newlines
import InterpolationLint.Proofs.Scan.NextLine
import InterpolationLint.Proofs.Scan.Paving
import InterpolationLint.Proofs.Scan.Progress
import InterpolationLint.Proofs.Scan.Returns
import InterpolationLint.Proofs.Scan.Shape
import InterpolationLint.Proofs.Scan.Shift
import InterpolationLint.Proofs.Scan.Strings
import InterpolationLint.Proofs.Scan.Texts
import InterpolationLint.Proofs.Scan.Visits
import InterpolationLint.Proofs.Sketch.Basic
import InterpolationLint.Proofs.Sketch.Lexeme
import InterpolationLint.Proofs.Sketch.Scan
import InterpolationLint.Proofs.Suppression.Directive
import InterpolationLint.Proofs.Suppression.Lines
import InterpolationLint.Proofs.Suppression.Mark
import InterpolationLint.Proofs.Suppression.Origin
import InterpolationLint.Proofs.Suppression.Placement
import InterpolationLint.Proofs.Suppression.Site
import InterpolationLint.Proofs.Suppression.Written
import InterpolationLint.Proofs.Text.Columns
import InterpolationLint.Proofs.Text.LineEnds
import InterpolationLint.Proofs.Text.Lines
import InterpolationLint.Proofs.Tree.Cuts
import InterpolationLint.Proofs.Tree.LineEnds
import InterpolationLint.Report.Listing
import InterpolationLint.Report.Record
import InterpolationLint.Report.Sarif
import InterpolationLint.Report.Style
import InterpolationLint.Rule.Basic
import InterpolationLint.Rule.Selection
import InterpolationLint.Run
import InterpolationLint.Scan.Cursor
import InterpolationLint.Scan.Failure
import InterpolationLint.Scan.Items
import InterpolationLint.Scan.Lexeme
import InterpolationLint.Scan.StringText
import InterpolationLint.Suppression.Basic
import InterpolationLint.Suppression.Comment
import InterpolationLint.Text.Blank
import InterpolationLint.Text.Lines
import InterpolationLint.Text.Location
import InterpolationLint.Text.Order
import InterpolationLint.Text.Printable
import InterpolationLint.Text.Quoted
import InterpolationLint.Text.Range
import InterpolationLint.Tool
import InterpolationLint.Tree.Basic
import InterpolationLint.Tree.Nodes
import InterpolationLint.Tree.Tiling
import InterpolationLint.Yaml.Basic
import InterpolationLint.Yaml.Document
import InterpolationLint.Yaml.Name
import InterpolationLint.Yaml.Node
import InterpolationLint.Yaml.Property
import InterpolationLint.Yaml.Scalar
import InterpolationLint.Yaml.Token
