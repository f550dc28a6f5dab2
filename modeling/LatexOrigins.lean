import LatexOrigins.Analysis.Analyzer
import LatexOrigins.Analysis.Checker
import LatexOrigins.Analysis.Problem
import LatexOrigins.Analysis.Region
import LatexOrigins.Command.Arguments
import LatexOrigins.Command.Basic
import LatexOrigins.Command.Outcome
import LatexOrigins.Command.Writing
import LatexOrigins.Document.Basic
import LatexOrigins.Document.Build
import LatexOrigins.Document.Record
import LatexOrigins.Document.Source
import LatexOrigins.Fault
import LatexOrigins.Files.Disk
import LatexOrigins.Files.FileSet
import LatexOrigins.Files.Path
import LatexOrigins.Flat.Basic
import LatexOrigins.Flat.Expand
import LatexOrigins.Flat.Move
import LatexOrigins.Flat.Options
import LatexOrigins.Json.Basic
import LatexOrigins.Json.Printer
import LatexOrigins.LoadError
import LatexOrigins.Main
import LatexOrigins.Markup.Group
import LatexOrigins.Markup.Symbol
import LatexOrigins.Origin.Basic
import LatexOrigins.Origin.Codec
import LatexOrigins.Origin.Error
import LatexOrigins.Origin.Order
import LatexOrigins.Origin.Record
import LatexOrigins.Pattern.Basic
import LatexOrigins.Pattern.CaseFolding
import LatexOrigins.Pattern.CharClass
import LatexOrigins.Pattern.CharSet
import LatexOrigins.Pattern.Error
import LatexOrigins.Pattern.Escape
import LatexOrigins.Pattern.Expr
import LatexOrigins.Pattern.Footprint
import LatexOrigins.Pattern.Program
import LatexOrigins.Pattern.Property
import LatexOrigins.Pattern.Reader
import LatexOrigins.Pattern.Search
import LatexOrigins.Pattern.SetReader
import LatexOrigins.Pattern.SimpleForm
import LatexOrigins.Pattern.Utf8Range
import LatexOrigins.Plain.Basic
import LatexOrigins.Plain.Block
import LatexOrigins.Plain.Options
import LatexOrigins.Proofs.Analysis.Matches
import LatexOrigins.Proofs.Analysis.Quoted
import LatexOrigins.Proofs.Analysis.Sorted
import LatexOrigins.Proofs.Command.Writing
import LatexOrigins.Proofs.Document.Agreement
import LatexOrigins.Proofs.Document.Answer
import LatexOrigins.Proofs.Document.Building
import LatexOrigins.Proofs.Document.Characters
import LatexOrigins.Proofs.Document.Consecutive
import LatexOrigins.Proofs.Document.Context
import LatexOrigins.Proofs.Document.Copied
import LatexOrigins.Proofs.Document.Gates
import LatexOrigins.Proofs.Document.Identity
import LatexOrigins.Proofs.Document.Ordered
import LatexOrigins.Proofs.Document.Queries
import LatexOrigins.Proofs.Document.Share
import LatexOrigins.Proofs.Document.SourceSpan
import LatexOrigins.Proofs.Document.Stability
import LatexOrigins.Proofs.Document.Total
import LatexOrigins.Proofs.Document.Tracing
import LatexOrigins.Proofs.Document.Verbatim
import LatexOrigins.Proofs.Files.Bounded
import LatexOrigins.Proofs.Files.Resolution
import LatexOrigins.Proofs.Files.Walk
import LatexOrigins.Proofs.Flat.Bare
import LatexOrigins.Proofs.Flat.Building
import LatexOrigins.Proofs.Flat.Calls
import LatexOrigins.Proofs.Flat.CommentLine
import LatexOrigins.Proofs.Flat.Cycle
import LatexOrigins.Proofs.Flat.Dropped
import LatexOrigins.Proofs.Flat.Faithful
import LatexOrigins.Proofs.Flat.Indentation
import LatexOrigins.Proofs.Flat.LineByLine
import LatexOrigins.Proofs.Flat.Lines
import LatexOrigins.Proofs.Flat.Nesting
import LatexOrigins.Proofs.Flat.Numbering
import LatexOrigins.Proofs.Flat.Order
import LatexOrigins.Proofs.Flat.Repeat
import LatexOrigins.Proofs.Flat.Retraction
import LatexOrigins.Proofs.Flat.Run
import LatexOrigins.Proofs.Flat.Scan
import LatexOrigins.Proofs.Flat.Settled
import LatexOrigins.Proofs.Flat.Silence
import LatexOrigins.Proofs.Flat.Step
import LatexOrigins.Proofs.Flat.Tidy
import LatexOrigins.Proofs.Flat.Total
import LatexOrigins.Proofs.Flat.Trace
import LatexOrigins.Proofs.Flat.Unsplit
import LatexOrigins.Proofs.Flat.Verbatim
import LatexOrigins.Proofs.Flat.Visit
import LatexOrigins.Proofs.Markup.Cut
import LatexOrigins.Proofs.Markup.Recognition
import LatexOrigins.Proofs.Markup.Search
import LatexOrigins.Proofs.Markup.Trimmed
import LatexOrigins.Proofs.Markup.Verbatim
import LatexOrigins.Proofs.Origin.Codec
import LatexOrigins.Proofs.Origin.Order
import LatexOrigins.Proofs.Pattern.Places
import LatexOrigins.Proofs.Plain.Behind
import LatexOrigins.Proofs.Plain.Construct
import LatexOrigins.Proofs.Plain.Removed
import LatexOrigins.Proofs.Plain.Scan
import LatexOrigins.Proofs.Plain.Stripped
import LatexOrigins.Proofs.Plain.Unmarked
import LatexOrigins.Proofs.Plain.Verbatim
import LatexOrigins.Proofs.Results
import LatexOrigins.Proofs.Text.Addressing
import LatexOrigins.Proofs.Text.Encoded
import LatexOrigins.Proofs.Text.LineSpan
import LatexOrigins.Proofs.Text.LineTable
import LatexOrigins.Settings.Basic
import LatexOrigins.Settings.Reading
import LatexOrigins.Settings.Record
import LatexOrigins.Text.Blank
import LatexOrigins.Text.Bytes
import LatexOrigins.Text.LineSpan
import LatexOrigins.Text.Lined
import LatexOrigins.Text.Position
import LatexOrigins.Toml.Basic
import LatexOrigins.Toml.Number
import LatexOrigins.Toml.Quoted
import LatexOrigins.Toml.Reader
import LatexOrigins.Toml.Table
