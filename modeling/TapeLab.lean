import TapeLab.Agenda
import TapeLab.Challenge
import TapeLab.Challenge.Catalog
import TapeLab.Clockwork
import TapeLab.Command
import TapeLab.CommandLine
import TapeLab.CommandLine.Arguments
import TapeLab.CommandLine.Request
import TapeLab.CommandLine.WholeNumber
import TapeLab.Console.Listing
import TapeLab.Console.Output
import TapeLab.Console.Plain
import TapeLab.Console.Status
import TapeLab.Decimal.Binary64
import TapeLab.Decimal.Reader
import TapeLab.Decimal.Rounding
import TapeLab.Decimal.Shortest
import TapeLab.Desk
import TapeLab.Desk.Operation
import TapeLab.Disk.Path
import TapeLab.Disk.Tree
import TapeLab.Heap
import TapeLab.History
import TapeLab.Journal
import TapeLab.Json.Printer
import TapeLab.Json.Reader
import TapeLab.Json.Value
import TapeLab.Keeper
import TapeLab.Keeper.Safe
import TapeLab.Machine
import TapeLab.Main
import TapeLab.Move
import TapeLab.Pacer
import TapeLab.Pacer.Rehearsal
import TapeLab.Play
import TapeLab.Proofs.Agenda
import TapeLab.Proofs.Agenda.Clock
import TapeLab.Proofs.Agenda.Numbers
import TapeLab.Proofs.Agenda.Progress
import TapeLab.Proofs.Clockwork
import TapeLab.Proofs.Command
import TapeLab.Proofs.Command.Faults
import TapeLab.Proofs.CommandLine
import TapeLab.Proofs.CommandLine.Checking
import TapeLab.Proofs.Decimal.Binary64
import TapeLab.Proofs.Desk.Advance
import TapeLab.Proofs.Desk.Bounds
import TapeLab.Proofs.Desk.Chronicle
import TapeLab.Proofs.Desk.Gears
import TapeLab.Proofs.Desk.Progress
import TapeLab.Proofs.Desk.Redo
import TapeLab.Proofs.Desk.Report
import TapeLab.Proofs.Desk.Saving
import TapeLab.Proofs.Desk.Speed
import TapeLab.Proofs.Desk.Standing
import TapeLab.Proofs.Desk.Work
import TapeLab.Proofs.Disk.Tree
import TapeLab.Proofs.Heap
import TapeLab.Proofs.Heap.Order
import TapeLab.Proofs.History
import TapeLab.Proofs.History.Newest
import TapeLab.Proofs.Json.RoundTrip
import TapeLab.Proofs.Json.Token
import TapeLab.Proofs.Keeper
import TapeLab.Proofs.Keeper.Loaded
import TapeLab.Proofs.Keeper.Safe
import TapeLab.Proofs.Keeper.Saved
import TapeLab.Proofs.Machine.Frame
import TapeLab.Proofs.Machine.Simulation
import TapeLab.Proofs.Machine.Step
import TapeLab.Proofs.Pacer
import TapeLab.Proofs.Pacer.Rehearsal
import TapeLab.Proofs.Pacer.Renewal
import TapeLab.Proofs.Play
import TapeLab.Proofs.Play.Saving
import TapeLab.Proofs.Play.Watching
import TapeLab.Proofs.Rule
import TapeLab.Proofs.RuleTable.Alphabet
import TapeLab.Proofs.RuleTable.Conflicts
import TapeLab.Proofs.RuleTable.Graph
import TapeLab.Proofs.RuleTable.Printed
import TapeLab.Proofs.RuleTable.Reloaded
import TapeLab.Proofs.RuleTable.Spec
import TapeLab.Proofs.Session
import TapeLab.Proofs.Session.Parts
import TapeLab.Proofs.Session.Saved
import TapeLab.Proofs.Settings
import TapeLab.Proofs.Settings.Entries
import TapeLab.Proofs.Settings.Loading
import TapeLab.Proofs.Snapshot
import TapeLab.Proofs.Tape
import TapeLab.Proofs.Text.Blank
import TapeLab.Proofs.Text.Digits
import TapeLab.Proofs.Text.Lines
import TapeLab.Proofs.Text.Markup
import TapeLab.Proofs.Text.Utf8
import TapeLab.Proofs.Text.Words
import TapeLab.Proofs.Textbook
import TapeLab.Proofs.Trace
import TapeLab.Proofs.Trial
import TapeLab.Proofs.Trial.Course
import TapeLab.Proofs.Trial.Run
import TapeLab.Proofs.Trial.Verdict
import TapeLab.Proofs.Workbench.Announcement
import TapeLab.Proofs.Workbench.Arises
import TapeLab.Proofs.Workbench.Bounds
import TapeLab.Proofs.Workbench.Calm
import TapeLab.Proofs.Workbench.Cancelling
import TapeLab.Proofs.Workbench.Chronicle
import TapeLab.Proofs.Workbench.Deeds
import TapeLab.Proofs.Workbench.Geared
import TapeLab.Proofs.Workbench.Pacing
import TapeLab.Proofs.Workbench.Reachable
import TapeLab.Proofs.Workbench.Redo
import TapeLab.Proofs.Workbench.Refused
import TapeLab.Proofs.Workbench.Restoring
import TapeLab.Proofs.Workbench.Retrace
import TapeLab.Proofs.Workbench.Runs
import TapeLab.Proofs.Workbench.Saving
import TapeLab.Proofs.Workbench.Tick
import TapeLab.Proofs.Workbench.Tracing
import TapeLab.Proofs.Workbench.Waiting
import TapeLab.Proofs.Workbench.Winning
import TapeLab.Rule
import TapeLab.RuleTable
import TapeLab.RuleTable.File
import TapeLab.RuleTable.Graph
import TapeLab.RuleTable.Spec
import TapeLab.Session
import TapeLab.Session.Saved
import TapeLab.Settings
import TapeLab.Settings.File
import TapeLab.Snapshot
import TapeLab.Symbol
import TapeLab.Tape
import TapeLab.Text.Blank
import TapeLab.Text.DigitTable
import TapeLab.Text.HiddenTable
import TapeLab.Text.Markup
import TapeLab.Text.Numeral
import TapeLab.Text.Quoted
import TapeLab.Text.Utf8
import TapeLab.Toml.Moment
import TapeLab.Toml.Reader
import TapeLab.Toml.Text
import TapeLab.Toml.Value
import TapeLab.Trial
import TapeLab.Workbench
