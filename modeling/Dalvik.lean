import Dalvik.Analysis
import Dalvik.Analyzer
import Dalvik.Batch
import Dalvik.Bytes.Hex
import Dalvik.Bytes.LittleEndian
import Dalvik.Bytes.Reader
import Dalvik.Bytes.Utf8
import Dalvik.Check.Basic
import Dalvik.Check.Branch
import Dalvik.Check.Tables
import Dalvik.Check.Tries
import Dalvik.Check.Widths
import Dalvik.CodeItem
import Dalvik.Command.Disk
import Dalvik.Command.Flag
import Dalvik.Command.Help
import Dalvik.Command.Request
import Dalvik.Command.Run
import Dalvik.Decimal.Nearest
import Dalvik.Decimal.Shortest
import Dalvik.Diagnosis
import Dalvik.Diff
import Dalvik.Diff.Compare
import Dalvik.Diff.Delta
import Dalvik.Diff.Listing
import Dalvik.Diff.Subsequence
import Dalvik.Diff.Value
import Dalvik.Digest
import Dalvik.Fault
import Dalvik.Files
import Dalvik.FlagTable
import Dalvik.Json.Decode
import Dalvik.Json.Document
import Dalvik.Json.Escape
import Dalvik.Json.Literal
import Dalvik.Json.Token
import Dalvik.Json.Value
import Dalvik.Log.Level
import Dalvik.Log.Line
import Dalvik.Log.Logger
import Dalvik.Log.Record
import Dalvik.Main
import Dalvik.Method
import Dalvik.Opcode
import Dalvik.Pass
import Dalvik.Payload
import Dalvik.Proofs.Acceptance
import Dalvik.Proofs.BodyVerdict
import Dalvik.Proofs.Bounds
import Dalvik.Proofs.Branches
import Dalvik.Proofs.CachedMessages
import Dalvik.Proofs.Cancellation
import Dalvik.Proofs.CatchAll
import Dalvik.Proofs.Checks
import Dalvik.Proofs.Decode
import Dalvik.Proofs.ExactNumbers
import Dalvik.Proofs.ExceptionTable
import Dalvik.Proofs.FailureClass
import Dalvik.Proofs.FailureLog
import Dalvik.Proofs.Faults
import Dalvik.Proofs.FlagHistory
import Dalvik.Proofs.FlagTable
import Dalvik.Proofs.FlagValues
import Dalvik.Proofs.Forms
import Dalvik.Proofs.HandlerArea
import Dalvik.Proofs.HexInput
import Dalvik.Proofs.IndentedDocument
import Dalvik.Proofs.JsonDocument
import Dalvik.Proofs.JsonNumber
import Dalvik.Proofs.JsonString
import Dalvik.Proofs.KeptVerdicts
import Dalvik.Proofs.Layout
import Dalvik.Proofs.Leb128
import Dalvik.Proofs.PassOrder
import Dalvik.Proofs.Passes
import Dalvik.Proofs.PayloadExtents
import Dalvik.Proofs.PointwiseRuns
import Dalvik.Proofs.Rejections
import Dalvik.Proofs.ReportJson
import Dalvik.Proofs.ReportRoundTrip
import Dalvik.Proofs.Rescan
import Dalvik.Proofs.Resolution
import Dalvik.Proofs.Scan
import Dalvik.Proofs.Schedules
import Dalvik.Proofs.SelfDelimiting
import Dalvik.Proofs.Starts
import Dalvik.Proofs.StoreHistory
import Dalvik.Proofs.StoreTransparency
import Dalvik.Proofs.Sweep
import Dalvik.Proofs.TableInvariant
import Dalvik.Proofs.Tables
import Dalvik.Proofs.TransferMarks
import Dalvik.Proofs.Transfers
import Dalvik.Proofs.Tries
import Dalvik.Proofs.TryOrder
import Dalvik.Proofs.Utf8
import Dalvik.Proofs.VerdictStore
import Dalvik.Proofs.Views
import Dalvik.Proofs.Walk
import Dalvik.Proofs.WrittenItem
import Dalvik.Proofs.WrittenRecord
import Dalvik.Rejection
import Dalvik.Report.Basic
import Dalvik.Report.View
import Dalvik.Text.Blank
import Dalvik.Text.Distance
import Dalvik.Text.Integer
import Dalvik.Text.Number
import Dalvik.Text.Printable
import Dalvik.Text.Quoted
import Dalvik.Text.Small
import Dalvik.Text.Tree
import Dalvik.Verdict
