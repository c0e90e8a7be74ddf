import PixelRem.Command
import PixelRem.Command.Route
import PixelRem.Command.Snapshot
import PixelRem.Config.Flag
import PixelRem.Config.Load
import PixelRem.Config.Record
import PixelRem.Config.Timestamp
import PixelRem.Config.Value
import PixelRem.Css.Lexer
import PixelRem.Css.Parser
import PixelRem.Css.Position
import PixelRem.Css.Printer
import PixelRem.Css.Rule
import PixelRem.Css.Token
import PixelRem.Files.Glob
import PixelRem.Files.Glob.Match
import PixelRem.Files.Glob.Pattern
import PixelRem.Files.Glob.Row
import PixelRem.Files.Ignore
import PixelRem.Files.Path
import PixelRem.Files.Tree
import PixelRem.Length.Convert
import PixelRem.Length.Span
import PixelRem.Log
import PixelRem.Number.Binary64
import PixelRem.Number.Decimal
import PixelRem.Number.Power
import PixelRem.Number.Reader
import PixelRem.Regex
import PixelRem.Regex.Reader
import PixelRem.Report
import PixelRem.Report.Color
import PixelRem.Report.Json
import PixelRem.Report.LogLine
import PixelRem.Report.Width
import PixelRem.Run.Batch
import PixelRem.Run.Mode
import PixelRem.Run.Output
import PixelRem.Run.Scan
import PixelRem.Settings
import PixelRem.Sheet.Directive
import PixelRem.Sheet.Generate
import PixelRem.Sheet.PixelPass
import PixelRem.Sheet.RemPass
import PixelRem.Sheet.Stats
import PixelRem.Sheet.Walk
import PixelRem.Text
import PixelRem.Text.Base64
import PixelRem.Text.Blank
import PixelRem.Text.Case
import PixelRem.Text.Cluster
import PixelRem.Text.Cluster.Table
import PixelRem.Text.Printable
import PixelRem.Text.Quoted
import PixelRem.Yaml.Cursor
import PixelRem.Yaml.Node
import PixelRem.Yaml.Scalar
import PixelRem.Yaml.Token
import PixelRem.Yaml.Token.Lexer
import PixelRem.Yaml.Token.Property
import PixelRem.Yaml.Token.Scalar
import PixelRem.Yaml.Value
import PixelRem.Main
import PixelRem.Proofs.Grammar
import PixelRem.Proofs.Readers
import PixelRem.Proofs.Parse
import PixelRem.Proofs.Lexer
import PixelRem.Proofs.Locality
import PixelRem.Proofs.Enclosure
import PixelRem.Proofs.TokenSwap
import PixelRem.Proofs.Spacing
import PixelRem.Proofs.Reprint
import PixelRem.Proofs.Place
import PixelRem.Proofs.RoundTrip
import PixelRem.Proofs.Pixels
import PixelRem.Proofs.RemPass
import PixelRem.Proofs.TokenEnds
import PixelRem.Proofs.TokenFrame
import PixelRem.Proofs.Dimension
import PixelRem.Proofs.Entries
import PixelRem.Proofs.RemSplit
import PixelRem.Proofs.PassAgreement
import PixelRem.Proofs.PixelFree
import PixelRem.Proofs.ScaledShape
import PixelRem.Proofs.WellFormed
import PixelRem.Proofs.Offsets
import PixelRem.Proofs.Composition
import PixelRem.Proofs.ReadBack
import PixelRem.Proofs.Paths
import PixelRem.Proofs.Tree
import PixelRem.Proofs.SheetNames
import PixelRem.Proofs.Batch
import PixelRem.Proofs.GlobPaths
import PixelRem.Proofs.GlobStable
import PixelRem.Proofs.Runs
import PixelRem.Proofs.Accounts
import PixelRem.Proofs.Overwrites
import PixelRem.Proofs.Rerun
import PixelRem.Proofs.Statistics
import PixelRem.Proofs.Acceptance
import PixelRem.Proofs.ConfigMaps
import PixelRem.Proofs.FlagValues
import PixelRem.Proofs.Precedence
import PixelRem.Proofs.Includes
import PixelRem.Proofs.Numerals
import PixelRem.Proofs.Spans
import PixelRem.Proofs.Rounding
import PixelRem.Proofs.Accuracy
import PixelRem.Proofs.Faults
import PixelRem.Proofs.FaultPlaces
import PixelRem.Proofs.DocumentOrder
import PixelRem.Proofs.Canonical
import PixelRem.Proofs.Precision
import PixelRem.Proofs.DirectingWords
import PixelRem.Proofs.Scans
import PixelRem.Proofs.Splitting
import PixelRem.Proofs.Tiling
import PixelRem.Proofs.Positions
import PixelRem.Proofs.Progress
import PixelRem.Proofs.Mounts
