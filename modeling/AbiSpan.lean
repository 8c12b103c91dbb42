import AbiSpan.AbiType
import AbiSpan.AbiType.Descriptor
import AbiSpan.AbiType.Text
import AbiSpan.Address
import AbiSpan.Bytes
import AbiSpan.CallScope
import AbiSpan.Desk
import AbiSpan.Fault
import AbiSpan.Field
import AbiSpan.Hex
import AbiSpan.Hex.Json
import AbiSpan.Interface
import AbiSpan.Interface.Reader
import AbiSpan.ItemKey
import AbiSpan.Json
import AbiSpan.Json.Blank
import AbiSpan.Json.Number
import AbiSpan.Json.Quoted
import AbiSpan.Json.Reader
import AbiSpan.Json.Shape
import AbiSpan.Json.Stray
import AbiSpan.Json.Writer
import AbiSpan.Keccak
import AbiSpan.Layout
import AbiSpan.Library
import AbiSpan.Limits
import AbiSpan.Limits.Json
import AbiSpan.LogFilter
import AbiSpan.LogFilter.Json
import AbiSpan.LogMatch
import AbiSpan.LogScope
import AbiSpan.LogValues
import AbiSpan.Node
import AbiSpan.Notice
import AbiSpan.Plan
import AbiSpan.Record
import AbiSpan.Schema
import AbiSpan.Session
import AbiSpan.Session.Calls
import AbiSpan.Session.Events
import AbiSpan.Session.Operation
import AbiSpan.Session.Summary
import AbiSpan.Source
import AbiSpan.Span
import AbiSpan.Text.Blank
import AbiSpan.Transaction
import AbiSpan.Transaction.Json
import AbiSpan.TxKind
import AbiSpan.Value
import AbiSpan.Value.Decoder
import AbiSpan.Value.Utf8
import AbiSpan.View
import AbiSpan.Proofs.Bytes
import AbiSpan.Proofs.Outcome
import AbiSpan.Proofs.SlotSize
import AbiSpan.Proofs.Tree
import AbiSpan.Proofs.Reading
import AbiSpan.Proofs.Encoding
import AbiSpan.Proofs.Layout.Laid
import AbiSpan.Proofs.Layout.Account
import AbiSpan.Proofs.Layout.Walk
import AbiSpan.Proofs.Layout.Exact
import AbiSpan.Proofs.Layout.Faithful
import AbiSpan.Proofs.Layout.RoundTrip
import AbiSpan.Proofs.Layout.Parallel
import AbiSpan.Proofs.Layout.Guard
import AbiSpan.Proofs.Layout.Survey
import AbiSpan.Proofs.Layout.Padding
import AbiSpan.Proofs.Layout.Surroundings
import AbiSpan.Proofs.Layout.Static
import AbiSpan.Proofs.Layout.Numbers
import AbiSpan.Proofs.Layout.Kept
import AbiSpan.Proofs.Layout.Refusal
import AbiSpan.Proofs.Layout.Reports
import AbiSpan.Proofs.Layout.Apart
import AbiSpan.Proofs.Picking
import AbiSpan.Proofs.Selecting
import AbiSpan.Proofs.Event.Inputs
import AbiSpan.Proofs.Event.Finding
import AbiSpan.Proofs.Event.Pick
import AbiSpan.Proofs.Event.Steps
import AbiSpan.Proofs.Call.Pick
import AbiSpan.Proofs.Session.Lookup
import AbiSpan.Proofs.Session.Search
import AbiSpan.Proofs.Session.EventPicks
import AbiSpan.Proofs.Session.Calling
import AbiSpan.Proofs.Session.Adding
import AbiSpan.Proofs.Session.CallPicks
import AbiSpan.Proofs.Session.FieldPicks
import AbiSpan.Proofs.Session.Within
import AbiSpan.Proofs.Decoding
import AbiSpan.Proofs.Library
import AbiSpan.Proofs.Event.Values
import AbiSpan.Proofs.Session.EventValues
import AbiSpan.Proofs.Quiet
import AbiSpan.Proofs.Session.Questions
import AbiSpan.Proofs.Session.Found
import AbiSpan.Proofs.Session.Asking
import AbiSpan.Proofs.Session.Singly
import AbiSpan.Proofs.Session.AskedOnce
import AbiSpan.Proofs.Session.CallMemo
import AbiSpan.Proofs.Session.SharedSelector
import AbiSpan.Proofs.Record.Opening
import AbiSpan.Proofs.Record.Indexing
import AbiSpan.Proofs.ItemKey
import AbiSpan.Proofs.ItemKey.NormalForm
import AbiSpan.Proofs.LogFilter
import AbiSpan.Proofs.Json.Text
import AbiSpan.Proofs.Json.Values
import AbiSpan.Proofs.Interface.Naming
import AbiSpan.Proofs.Session.Emitters
import AbiSpan.Proofs.Session.Naming
import AbiSpan.Proofs.Desk.Step
import AbiSpan.Proofs.Desk.Course
import AbiSpan.Proofs.Desk.Safety
import AbiSpan.Proofs.Desk.Budget
import AbiSpan.Proofs.Desk.Sharing
