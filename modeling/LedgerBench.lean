import LedgerBench.Main
import LedgerBench.Files.Basic
import LedgerBench.Proofs.Event.Tells
import LedgerBench.Proofs.Ledger.Records
import LedgerBench.Proofs.Ledger.Registry
import LedgerBench.Proofs.Ledger.Window
import LedgerBench.Proofs.Ledger.Writes
import LedgerBench.Proofs.Ledger.LastWrite
import LedgerBench.Proofs.Ledger.Reorder
import LedgerBench.Proofs.Ledger.ClientPart
import LedgerBench.Proofs.Report.ClientMetrics
import LedgerBench.Proofs.Report.Counts
import LedgerBench.Proofs.Ledger.Absorbed
import LedgerBench.Proofs.Ledger.Coherence
import LedgerBench.Proofs.Report.Survivors
import LedgerBench.Proofs.Double.SameNumber
import LedgerBench.Proofs.Stats.Order
import LedgerBench.Proofs.Report.Listing
import LedgerBench.Proofs.Double.Rounding
import LedgerBench.Proofs.Double.Value
import LedgerBench.Proofs.Double.Arithmetic
import LedgerBench.Proofs.Double.Bounds
import LedgerBench.Proofs.Time.Range
import LedgerBench.Proofs.Stats.Defined
import LedgerBench.Proofs.Report.Consistency
import LedgerBench.Proofs.Json.TrailingSpace
import LedgerBench.Proofs.Text.Lines
import LedgerBench.Proofs.Text.Digits
import LedgerBench.Proofs.Ledger.LogRecords
import LedgerBench.Proofs.Ledger.LogText
import LedgerBench.Proofs.Report.Noise
import LedgerBench.Proofs.Report.Rotation
import LedgerBench.Proofs.Ledger.Executions
import LedgerBench.Proofs.Report.Attribution
import LedgerBench.Proofs.Event.Renaming
import LedgerBench.Proofs.Ledger.Renaming
import LedgerBench.Proofs.Report.Renaming
import LedgerBench.Proofs.Report.Layout
import LedgerBench.Proofs.Ledger.Loading
import LedgerBench.Proofs.Report.ClockShift
import LedgerBench.Proofs.Report.Intervals
import LedgerBench.Proofs.Json.Words
import LedgerBench.Proofs.Event.Outcome
import LedgerBench.Proofs.Ledger.InPlace
import LedgerBench.Proofs.Report.Pruning
import LedgerBench.Proofs.Ledger.Accounting
import LedgerBench.Proofs.Double.Sign
import LedgerBench.Proofs.Report.Throughput
import LedgerBench.Proofs.Stats.Interpolation
import LedgerBench.Proofs.Stats.Percentiles
import LedgerBench.Proofs.Ledger.LineByLine
import LedgerBench.Proofs.Time.WrittenForms
import LedgerBench.Proofs.Report.InsertionOrder
import LedgerBench.Proofs.Time.LeapSeconds
import LedgerBench.Proofs.Json.QuotedText
import LedgerBench.Proofs.Json.NumberText
import LedgerBench.Proofs.Json.OnePlace
import LedgerBench.Proofs.Event.OneValue
import LedgerBench.Proofs.Ledger.IntegerIds
import LedgerBench.Proofs.Decimal.Shortest
import LedgerBench.Proofs.Double.PowersOfTen
import LedgerBench.Proofs.Double.Finite
import LedgerBench.Proofs.Json.FloatText
import LedgerBench.Proofs.Json.ObjectText
import LedgerBench.Proofs.Text.Columns
import LedgerBench.Proofs.Report.TableRows
import LedgerBench.Proofs.Report.WrittenJson
import LedgerBench.Proofs.Decimal.Fixed
import LedgerBench.Proofs.Report.Durations
