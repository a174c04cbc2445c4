import Abacus.Text.Basic
import Abacus.Text.Plain
import Abacus.Text.Shown
import Abacus.Text.Utf8
import Abacus.Text.Width
import Abacus.Double.Arithmetic
import Abacus.Double.Elementary
import Abacus.Decimal.Layout
import Abacus.Decimal.Reading
import Abacus.Expression.Check
import Abacus.Expression.Evaluation
import Abacus.Function
import Abacus.Mode
import Abacus.Display
import Abacus.Number
import Abacus.Calendar
import Abacus.Json.Decoder
import Abacus.Json.Writer
import Abacus.Wire.Encoding
import Abacus.Wire.Decoding
import Abacus.History.Retention
import Abacus.History.Store
import Abacus.History.Recorder
import Abacus.History.Schedule
import Abacus.History.Table
import Abacus.Service
import Abacus.Http.Router
import Abacus.Rpc.Handler
import Abacus.Session
import Abacus.CommandLine.Program
import Abacus.CommandLine.Process
import Abacus.Upkeep.Plan
import Abacus.Main
import Abacus.Proofs.Except
import Abacus.Proofs.Function
import Abacus.Proofs.Expression.Grammar
import Abacus.Proofs.Expression.Cut
import Abacus.Proofs.Expression.Reading
import Abacus.Proofs.Expression.Meaning
import Abacus.Proofs.Expression.Balance
import Abacus.Proofs.Expression.Place
import Abacus.Proofs.Expression.Beginning
import Abacus.Proofs.Expression.Halt
import Abacus.Proofs.Expression.Blame
import Abacus.Proofs.Expression.Checked
import Abacus.Proofs.Expression.Spacing
import Abacus.Proofs.Calculation
import Abacus.Proofs.History.Cleanup
import Abacus.Proofs.History.Schedule
import Abacus.Proofs.History.Insertions
import Abacus.Proofs.Service
import Abacus.Proofs.Wire.Encoding
import Abacus.Proofs.Json.Record
import Abacus.Proofs.Http.Router
import Abacus.Proofs.Http.Failure
import Abacus.Proofs.Rpc.Handler
import Abacus.Proofs.Rpc.Fault
import Abacus.Proofs.Rpc.Schema
import Abacus.Proofs.Session
import Abacus.Proofs.Session.Independence
import Abacus.Proofs.Session.Agreement
import Abacus.Proofs.Double.Magnitude
import Abacus.Proofs.Double.Whole
import Abacus.Proofs.Double.Value
import Abacus.Proofs.Decimal.Value
import Abacus.Proofs.Decimal.Rounded
import Abacus.Proofs.Decimal.Shortest
import Abacus.Proofs.Decimal.Written
import Abacus.Proofs.Decimal.Numeral
import Abacus.Proofs.Decimal.Reading
import Abacus.Proofs.Number
import Abacus.Proofs.Wire.Numbers
import Abacus.Proofs.Display.Places
import Abacus.Proofs.Display
import Abacus.Proofs.Display.Shape
import Abacus.Proofs.Display.Return
import Abacus.Proofs.Display.Order
import Abacus.Proofs.Result
import Abacus.Proofs.History.Recent
import Abacus.Proofs.History.Order
import Abacus.Proofs.Session.Results
import Abacus.Proofs.Limit
import Abacus.Proofs.Http.Form
import Abacus.Proofs.Wire.Records
import Abacus.Proofs.History.Growth
import Abacus.Proofs.History.Unknown
import Abacus.Proofs.History.Retention
import Abacus.Proofs.CommandLine.Printing
import Abacus.Proofs.CommandLine.Program
import Abacus.Proofs.CommandLine.Success
import Abacus.Proofs.CommandLine.Runs
import Abacus.Proofs.Session.Looks
import Abacus.Proofs.Wire.Return
import Abacus.Proofs.CommandLine.Calls
import Abacus.Proofs.Expression.Pair
import Abacus.Proofs.Calculation.Label
import Abacus.Expression.Cursor
import Abacus.Proofs.Calculation.Verdict
import Abacus.Proofs.Calendar
import Abacus.Proofs.Calendar.Timestamp
import Abacus.Proofs.Expression.Cursor
import Abacus.Proofs.Expression.Lexeme
