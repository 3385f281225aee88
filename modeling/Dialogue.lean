import Dialogue.CommandLine
import Dialogue.CommandLine.Arguments
import Dialogue.CommandLine.Console
import Dialogue.CommandLine.Failure
import Dialogue.CommandLine.Play
import Dialogue.Container
import Dialogue.Container.Builder
import Dialogue.Container.Format
import Dialogue.Container.Listing
import Dialogue.Files
import Dialogue.Files.Path
import Dialogue.Host.Arena
import Dialogue.Host.Reaction
import Dialogue.Host.World
import Dialogue.Instruction
import Dialogue.Json
import Dialogue.Json.Access
import Dialogue.Json.Document
import Dialogue.Json.Fields
import Dialogue.Json.Token
import Dialogue.Machine
import Dialogue.Machine.Error
import Dialogue.Main
import Dialogue.Number
import Dialogue.Number.Decimal
import Dialogue.Number.Near
import Dialogue.Proofs.CommandLine.Inspect
import Dialogue.Proofs.CommandLine.Play
import Dialogue.Proofs.CommandLine.Scripted
import Dialogue.Proofs.Container.Assembly
import Dialogue.Proofs.Container.Closed
import Dialogue.Proofs.Container.Decoding
import Dialogue.Proofs.Container.Emission
import Dialogue.Proofs.Container.Grammar
import Dialogue.Proofs.Container.Linking
import Dialogue.Proofs.Container.Listing
import Dialogue.Proofs.Container.RoundTrip
import Dialogue.Proofs.Container.Sweep
import Dialogue.Proofs.Container.Tables
import Dialogue.Proofs.Container.Truncation
import Dialogue.Proofs.Files.Extension
import Dialogue.Proofs.Host.Account
import Dialogue.Proofs.Host.Arena
import Dialogue.Proofs.Host.Assignment
import Dialogue.Proofs.Host.Conduct
import Dialogue.Proofs.Host.Delivery
import Dialogue.Proofs.Host.Discipline
import Dialogue.Proofs.Host.History
import Dialogue.Proofs.Host.Holdings
import Dialogue.Proofs.Host.Isolation
import Dialogue.Proofs.Host.Lending
import Dialogue.Proofs.Host.Lifetime
import Dialogue.Proofs.Host.Likeness
import Dialogue.Proofs.Host.Loans
import Dialogue.Proofs.Host.Nesting
import Dialogue.Proofs.Host.Operations
import Dialogue.Proofs.Host.Outcome
import Dialogue.Proofs.Host.Rest
import Dialogue.Proofs.Host.Retirement
import Dialogue.Proofs.Host.Status
import Dialogue.Proofs.Host.Trace
import Dialogue.Proofs.Host.Unfolding
import Dialogue.Proofs.Instruction
import Dialogue.Proofs.Json.Document
import Dialogue.Proofs.Json.Numeral
import Dialogue.Proofs.Json.Token
import Dialogue.Proofs.Machine.Admission
import Dialogue.Proofs.Machine.Announcement
import Dialogue.Proofs.Machine.Boundary
import Dialogue.Proofs.Machine.Constant
import Dialogue.Proofs.Machine.Effects
import Dialogue.Proofs.Machine.Frame
import Dialogue.Proofs.Machine.Functionless
import Dialogue.Proofs.Machine.Globals
import Dialogue.Proofs.Machine.History
import Dialogue.Proofs.Machine.Holdings
import Dialogue.Proofs.Machine.Intact
import Dialogue.Proofs.Machine.Moves
import Dialogue.Proofs.Machine.Notification
import Dialogue.Proofs.Machine.Pairing
import Dialogue.Proofs.Machine.Progress
import Dialogue.Proofs.Machine.Replay
import Dialogue.Proofs.Machine.Saving
import Dialogue.Proofs.Machine.Sequence
import Dialogue.Proofs.Machine.Sharing
import Dialogue.Proofs.Machine.Termination
import Dialogue.Proofs.Machine.Transfer
import Dialogue.Proofs.Machine.Transition
import Dialogue.Proofs.Machine.Visits
import Dialogue.Proofs.Number.Decimal
import Dialogue.Proofs.Number.Rounding
import Dialogue.Proofs.Reading
import Dialogue.Proofs.Story.Abstention
import Dialogue.Proofs.Story.Accord
import Dialogue.Proofs.Story.Aggregate
import Dialogue.Proofs.Story.Agreement
import Dialogue.Proofs.Story.Allowance
import Dialogue.Proofs.Story.Annals
import Dialogue.Proofs.Story.Attendance
import Dialogue.Proofs.Story.Awaiting
import Dialogue.Proofs.Story.Binding
import Dialogue.Proofs.Story.Completion
import Dialogue.Proofs.Story.Conclusion
import Dialogue.Proofs.Story.Creation
import Dialogue.Proofs.Story.Deference
import Dialogue.Proofs.Story.Echo
import Dialogue.Proofs.Story.Handover
import Dialogue.Proofs.Story.Instalment
import Dialogue.Proofs.Story.Ledger
import Dialogue.Proofs.Story.Mirror
import Dialogue.Proofs.Story.Observation
import Dialogue.Proofs.Story.Opening
import Dialogue.Proofs.Story.Own
import Dialogue.Proofs.Story.Preparation
import Dialogue.Proofs.Story.Provision
import Dialogue.Proofs.Story.Reachable
import Dialogue.Proofs.Story.Registry
import Dialogue.Proofs.Story.Replay
import Dialogue.Proofs.Story.Restart
import Dialogue.Proofs.Story.Round
import Dialogue.Proofs.Story.SavedState
import Dialogue.Proofs.Story.Settings
import Dialogue.Proofs.Story.Slice
import Dialogue.Proofs.Story.Speaking
import Dialogue.Proofs.Story.Stage
import Dialogue.Proofs.Story.Start
import Dialogue.Proofs.Story.Succession
import Dialogue.Proofs.Story.Tale
import Dialogue.Proofs.Story.Tandem
import Dialogue.Proofs.Story.Telling
import Dialogue.Proofs.Story.Twin
import Dialogue.Proofs.Story.Watcher
import Dialogue.Proofs.Table
import Dialogue.Proofs.Value.Equality
import Dialogue.Proofs.Value.Exchange
import Dialogue.Proofs.Value.Finite
import Dialogue.Proofs.Value.Insertion
import Dialogue.Proofs.Value.Json
import Dialogue.Proofs.Value.Proper
import Dialogue.Proofs.Value.Symmetry
import Dialogue.Proofs.Wire
import Dialogue.Proofs.Wire.Cursor
import Dialogue.Story
import Dialogue.Story.Config
import Dialogue.Story.Error
import Dialogue.Story.Extern
import Dialogue.Story.Files
import Dialogue.Story.Store
import Dialogue.Story.Telling
import Dialogue.Story.Watcher
import Dialogue.Table
import Dialogue.Text
import Dialogue.Text.Extender
import Dialogue.Text.Ranges
import Dialogue.Text.Unprinted
import Dialogue.Value
import Dialogue.Value.Buffer
import Dialogue.Value.Collection
import Dialogue.Value.Domain
import Dialogue.Value.Equality
import Dialogue.Value.Json
import Dialogue.Value.Text
import Dialogue.Wire.Cursor
