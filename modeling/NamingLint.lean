import NamingLint.Text.Basic
import NamingLint.Text.Blank
import NamingLint.Text.Word
import NamingLint.Text.Quoted
import NamingLint.Kind
import NamingLint.Convention
import NamingLint.Tally
import NamingLint.Path
import NamingLint.FileType
import NamingLint.Source.Region
import NamingLint.Marker
import NamingLint.Declaration.Piece
import NamingLint.Declaration.Shape
import NamingLint.Declaration.Binding
import NamingLint.Declaration.Callable
import NamingLint.Declaration.TypeName
import NamingLint.Declaration.Property
import NamingLint.Declaration.Parameter
import NamingLint.Declaration.Detect
import NamingLint.Text.Column
import NamingLint.Location
import NamingLint.Violation
import NamingLint.Config.Basic
import NamingLint.Source.File
import NamingLint.Rule.Basic
import NamingLint.Rule.Casing
import NamingLint.Rule.Construct
import NamingLint.Rule.Table
import NamingLint.Result.Gap
import NamingLint.Result.FileReport
import NamingLint.Result.Run
import NamingLint.Number.Double
import NamingLint.Number.Shortest
import NamingLint.Json.Value
import NamingLint.Json.Printer
import NamingLint.Json.Fault
import NamingLint.Json.Numeral
import NamingLint.Json.Reader
import NamingLint.Json.Codec
import NamingLint.Json.Record
import NamingLint.Form.Word
import NamingLint.Form.Violation
import NamingLint.Form.Tally
import NamingLint.Form.Status
import NamingLint.Form.Result
import NamingLint.Form.Config
import NamingLint.Config.Error
import NamingLint.Disk.Basic
import NamingLint.Disk.Change
import NamingLint.Disk.Walk
import NamingLint.Log
import NamingLint.Analysis.Inspection
import NamingLint.Analysis.Analyzer
import NamingLint.Report.Artifact
import NamingLint.Command.Arguments
import NamingLint.Command.Output
import NamingLint.Command.Run
import NamingLint.Main
import NamingLint.Proofs.Order.StableSort
import NamingLint.Proofs.Order.Entries
import NamingLint.Proofs.Text.Lines
import NamingLint.Proofs.Text.Bytes
import NamingLint.Proofs.Path.Join
import NamingLint.Proofs.Source.Strip
import NamingLint.Proofs.Declaration.Occurrence
import NamingLint.Proofs.Declaration.Parameter
import NamingLint.Proofs.Declaration.Contract
import NamingLint.Proofs.Rule.Outcome
import NamingLint.Proofs.Rule.Location
import NamingLint.Proofs.Disk.Resolve
import NamingLint.Proofs.Disk.Tree
import NamingLint.Proofs.Path.Components
import NamingLint.Proofs.Disk.Marks
import NamingLint.Proofs.Disk.Leads
import NamingLint.Proofs.Disk.Place
import NamingLint.Proofs.Disk.Change
import NamingLint.Proofs.Result.Tally
import NamingLint.Proofs.Result.Merge
import NamingLint.Proofs.Result.Algebra
import NamingLint.Proofs.Analysis.File
import NamingLint.Proofs.Analysis.Conservation
import NamingLint.Proofs.Analysis.Collect
import NamingLint.Proofs.Analysis.Partition
import NamingLint.Proofs.Analysis.Coverage
import NamingLint.Proofs.Analysis.Stripped
import NamingLint.Proofs.Declaration.Border
import NamingLint.Proofs.Rule.WholeName
import NamingLint.Proofs.Analysis.Independence
import NamingLint.Proofs.Json.Scalar
import NamingLint.Proofs.Json.Value
import NamingLint.Proofs.Json.Faithful
import NamingLint.Proofs.Form.RoundTrip
import NamingLint.Proofs.Text.Ending
import NamingLint.Proofs.Source.Ending
import NamingLint.Proofs.Declaration.EndingPiece
import NamingLint.Proofs.Declaration.EndingShape
import NamingLint.Proofs.Declaration.EndingOccurrence
import NamingLint.Proofs.Declaration.EndingParameter
import NamingLint.Proofs.Declaration.Ending
import NamingLint.Proofs.Analysis.Ending
import NamingLint.Proofs.Report.Replace
import NamingLint.Proofs.Report.Artifacts
import NamingLint.Proofs.Report.WorkingDirectory
import NamingLint.Proofs.Command.Effects
import NamingLint.Proofs.Analysis.Extension
import NamingLint.Proofs.Report.Rerun
import NamingLint.Proofs.Source.Composition
import NamingLint.Proofs.Source.Normal
import NamingLint.Proofs.Source.Marker
import NamingLint.Proofs.Declaration.Segment
import NamingLint.Proofs.Declaration.ModifierName
import NamingLint.Proofs.Declaration.Search
import NamingLint.Proofs.Rule.ForbiddenType
import NamingLint.Proofs.Analysis.PropertyTally
import NamingLint.Proofs.Declaration.Assignment
import NamingLint.Proofs.Declaration.Arrow
import NamingLint.Proofs.Text.Cut
import NamingLint.Proofs.Text.Utf8
import NamingLint.Proofs.Declaration.Parenthesis
import NamingLint.Proofs.Declaration.Split
import NamingLint.Proofs.Declaration.Scan
import NamingLint.Proofs.Declaration.Checked
import NamingLint.Proofs.Json.Skip
import NamingLint.Proofs.Json.Accept
import NamingLint.Proofs.Json.OpenRecord
import NamingLint.Proofs.Form.KnownMembers
