import ConstDb.Advice
import ConstDb.BigEndian
import ConstDb.Builder
import ConstDb.Bytes
import ConstDb.CommandLine.Arguments
import ConstDb.CommandLine.Run
import ConstDb.Draft
import ConstDb.Error
import ConstDb.Except
import ConstDb.Fault
import ConstDb.FileSpace.Basic
import ConstDb.FileSpace.Path
import ConstDb.Hash
import ConstDb.Image.Audit
import ConstDb.Image.Basic
import ConstDb.Image.Probe
import ConstDb.Image.Query
import ConstDb.Image.Scan
import ConstDb.Layout.Bucket
import ConstDb.Layout.Geometry
import ConstDb.Layout.Header
import ConstDb.Layout.Slot
import ConstDb.Main
import ConstDb.Reader
import ConstDb.Record
import ConstDb.Record.Distinct
import ConstDb.RecordText.Input
import ConstDb.RecordText.Intake
import ConstDb.RecordText.Parse
import ConstDb.RecordText.Print
import ConstDb.Session.Basic
import ConstDb.Session.Step
import ConstDb.Settings
import ConstDb.SlotTable
import ConstDb.Text.Blank
import ConstDb.Text.Number
import ConstDb.Text.Quoted
import ConstDb.Text.Shapeless
import ConstDb.Text.Utf8
import ConstDb.Walk
import ConstDb.Proofs.Bytes.Pieces
import ConstDb.Proofs.Layout.Codec
import ConstDb.Proofs.Layout.Tables
import ConstDb.Proofs.Probe.Route
import ConstDb.Proofs.SlotTable.Probing
import ConstDb.Proofs.Draft.File
import ConstDb.Proofs.Draft.Placed
import ConstDb.Proofs.Draft.Index
import ConstDb.Proofs.Builder.Commit
import ConstDb.Proofs.Image.Queries
import ConstDb.Proofs.Builder.Lookup
import ConstDb.Proofs.Draft.Scan
import ConstDb.Proofs.Draft.Audit
import ConstDb.Proofs.Builder.Scan
import ConstDb.Machine.Format
import ConstDb.Proofs.Machine.Format
import ConstDb.Machine.Feed
import ConstDb.Machine.Probe
import ConstDb.Machine.Scan
import ConstDb.Machine.Query
import ConstDb.Proofs.Machine.Feed
import ConstDb.Proofs.Image.Reach
import ConstDb.Proofs.Machine.Probe
import ConstDb.Proofs.Machine.Scan
import ConstDb.Proofs.Machine.Query
import ConstDb.Proofs.Image.Damage
import ConstDb.Proofs.Machine.Run
import ConstDb.Proofs.Reader.Calls
import ConstDb.Proofs.Image.Outside
import ConstDb.Proofs.Session.Builds
import ConstDb.Proofs.Session.Abandon
import ConstDb.Proofs.Session.Snapshot
import ConstDb.Proofs.RecordText.Reload
import ConstDb.Proofs.RecordText.Load
import ConstDb.Proofs.Session.Lookups
import ConstDb.Proofs.Record.Distinct
import ConstDb.Proofs.Image.Unique
import ConstDb.Proofs.Builder.Target
import ConstDb.Proofs.CommandLine.Uniq
import ConstDb.Proofs.CommandLine.Built
import ConstDb.Proofs.CommandLine.Make
import ConstDb.Proofs.Layout.Consistent
import ConstDb.Proofs.Reader.Torn
import ConstDb.Proofs.RecordText.Prompt
import ConstDb.Proofs.RecordText.Viable
import ConstDb.Machine.Fill
import ConstDb.Proofs.SlotTable.Seats
import ConstDb.Proofs.Machine.Fill
import ConstDb.Proofs.Image.Tiling
import ConstDb.Proofs.Image.Histogram
import ConstDb.Proofs.Image.Distance
import ConstDb.Proofs.Builder.Built
import ConstDb.Proofs.Builder.UniqueKeys
import ConstDb.Proofs.Builder.Views
import ConstDb.Proofs.Layout.Width
import ConstDb.Proofs.Builder.AllOrNothing
import ConstDb.Proofs.RecordText.Intake
import ConstDb.Proofs.RecordText.Faults
import ConstDb.Proofs.RecordText.Cut
import ConstDb.Machine.Write
import ConstDb.Proofs.Machine.Codec
import ConstDb.Proofs.Machine.Entry
import ConstDb.Machine.Radix
import ConstDb.Proofs.Settings.Mode
import ConstDb.Machine.Build
import ConstDb.Proofs.Machine.Build
import ConstDb.Proofs.Machine.Finish
import ConstDb.Proofs.Image.Unindexed
