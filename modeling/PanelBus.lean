import PanelBus.Json.Parser
import PanelBus.Json.Printer
import PanelBus.Text.Hex
import PanelBus.Config.Writer
import PanelBus.Sending.Desk
import PanelBus.Sending.Outlet
import PanelBus.Gateway.Run
import PanelBus.Proofs.Line.Accepted
import PanelBus.Proofs.Line.Leftover
import PanelBus.Proofs.Line.Delivery
import PanelBus.Proofs.Line.Genuine
import PanelBus.Proofs.Line.Account
import PanelBus.Proofs.Sending.Desk
import PanelBus.Proofs.Gateway.Confirmation
import PanelBus.Proofs.Gateway.Task
import PanelBus.Proofs.Sending.Distance
import PanelBus.Proofs.Sending.Order
import PanelBus.Proofs.Sending.Stopping
import PanelBus.Proofs.Gateway.Stopping
import PanelBus.Proofs.Registry
import PanelBus.Proofs.Event.Replay
import PanelBus.Proofs.Gateway.Submission
import PanelBus.Proofs.Gateway.History
import PanelBus.Proofs.Gateway.Refusal
import PanelBus.Proofs.Gateway.Twins
import PanelBus.Proofs.Sending.Calm
import PanelBus.Proofs.Gateway.Anticipation
import PanelBus.Proofs.Expr.Rules
import PanelBus.Proofs.Expr.Places
import PanelBus.Proofs.Expr.RoundTrip
import PanelBus.Proofs.Binary64
import PanelBus.Proofs.Expr.Arithmetic
import PanelBus.Proofs.Expr.Evaluation
import PanelBus.Proofs.Expr.Containment
import PanelBus.Proofs.Expr.Brackets
import PanelBus.Proofs.Expr.Layout
import PanelBus.Proofs.Expr.Nesting
import PanelBus.Proofs.Expr.Limits
import PanelBus.Proofs.Expr.Session
import PanelBus.Proofs.Device
import PanelBus.Proofs.Value
import PanelBus.Proofs.Expr.Variables
import PanelBus.Proofs.Registry.Acts
import PanelBus.Proofs.Registry.Independence
import PanelBus.Proofs.NameMap
import PanelBus.Proofs.Expr.Values
import PanelBus.Proofs.Registry.Repetition
import PanelBus.Proofs.Line.Tail
import PanelBus.Proofs.Checksum.SingleBit
import PanelBus.Proofs.Expr.Reading
import PanelBus.Proofs.Registry.Startup
import PanelBus.Proofs.Json.WellFormed
import PanelBus.Proofs.Config.Record
import PanelBus.Proofs.Config.RoundTrip
import PanelBus.Proofs.Config.Reading
import PanelBus.Proofs.Line.Room
import PanelBus.Proofs.Pattern
import PanelBus.Proofs.Pattern.Window
import PanelBus.Proofs.Registry.Calls
import PanelBus.Proofs.Gateway.Issued
import PanelBus.Proofs.Expr.Size
import PanelBus.Proofs.Expr.Steps
import PanelBus.Proofs.Expr.Story
import PanelBus.Proofs.Binary64.Whole
import PanelBus.Proofs.Bytes
import PanelBus.Proofs.Digits
import PanelBus.Proofs.NumberField
import PanelBus.Proofs.Command.Number
import PanelBus.Proofs.Command.Payload
import PanelBus.Proofs.Device.Fields
import PanelBus.Proofs.Crc16.Remainder
import PanelBus.Proofs.Line.Acceptance
import PanelBus.Proofs.Expr.Cache
import PanelBus.Proofs.NumberField.Words
import PanelBus.Proofs.NumberField.Plain
import PanelBus.Proofs.Expr.Remainder
import PanelBus.Proofs.Expr.Progress
