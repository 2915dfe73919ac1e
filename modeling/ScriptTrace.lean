import ScriptTrace.Act
import ScriptTrace.Bytes
import ScriptTrace.Bytes.Hex
import ScriptTrace.Bytes.Signed
import ScriptTrace.Bytes.Summary
import ScriptTrace.Codec.Decoder
import ScriptTrace.Codec.Encoder
import ScriptTrace.Codec.Error
import ScriptTrace.Codec.Reader
import ScriptTrace.Codec.Source
import ScriptTrace.Coverage.Artifact
import ScriptTrace.Coverage.Engine
import ScriptTrace.Coverage.Line
import ScriptTrace.Coverage.Recorder
import ScriptTrace.Coverage.Writer
import ScriptTrace.Digest.Ripemd160
import ScriptTrace.Digest.Sha256
import ScriptTrace.Engine
import ScriptTrace.Error
import ScriptTrace.Hash
import ScriptTrace.IoError
import ScriptTrace.Item
import ScriptTrace.Item.Outline
import ScriptTrace.Json.Reader
import ScriptTrace.Json.Schema
import ScriptTrace.Json.Value
import ScriptTrace.Json.Writer
import ScriptTrace.Proofs.Act
import ScriptTrace.Proofs.Bytes.Fixed
import ScriptTrace.Proofs.Bytes.Hex
import ScriptTrace.Proofs.Bytes.Signed
import ScriptTrace.Proofs.Codec.Delivery
import ScriptTrace.Proofs.Codec.Extent
import ScriptTrace.Proofs.Codec.Format
import ScriptTrace.Proofs.Codec.Nesting
import ScriptTrace.Proofs.Codec.Reading
import ScriptTrace.Proofs.Codec.RoundTrip
import ScriptTrace.Proofs.Codec.Stream
import ScriptTrace.Proofs.Codec.Writing
import ScriptTrace.Proofs.Concordance
import ScriptTrace.Proofs.Coverage.Artifacts
import ScriptTrace.Proofs.Coverage.Collecting
import ScriptTrace.Proofs.Coverage.Collection
import ScriptTrace.Proofs.Coverage.Counts
import ScriptTrace.Proofs.Coverage.Dispatches
import ScriptTrace.Proofs.Coverage.Disposal
import ScriptTrace.Proofs.Coverage.Failures
import ScriptTrace.Proofs.Coverage.FileNames
import ScriptTrace.Proofs.Coverage.Line
import ScriptTrace.Proofs.Coverage.Log
import ScriptTrace.Proofs.Coverage.Operations
import ScriptTrace.Proofs.Coverage.Reader
import ScriptTrace.Proofs.Coverage.Recording
import ScriptTrace.Proofs.Coverage.Refusals
import ScriptTrace.Proofs.Coverage.Reuse
import ScriptTrace.Proofs.Coverage.Room
import ScriptTrace.Proofs.Coverage.Strides
import ScriptTrace.Proofs.Coverage.Telling
import ScriptTrace.Proofs.Disposal
import ScriptTrace.Proofs.Hash
import ScriptTrace.Proofs.HashText
import ScriptTrace.Proofs.Likeness
import ScriptTrace.Proofs.Mirror
import ScriptTrace.Proofs.Overrides
import ScriptTrace.Proofs.Package
import ScriptTrace.Proofs.Reuse
import ScriptTrace.Proofs.Session.Attendance
import ScriptTrace.Proofs.Session.Company
import ScriptTrace.Proofs.Session.Deeds
import ScriptTrace.Proofs.Session.Disposal
import ScriptTrace.Proofs.Session.Drive
import ScriptTrace.Proofs.Session.Likeness
import ScriptTrace.Proofs.Session.Mirror
import ScriptTrace.Proofs.Session.Moves
import ScriptTrace.Proofs.Session.Persistence
import ScriptTrace.Proofs.Session.Recount
import ScriptTrace.Proofs.Session.Unobserved
import ScriptTrace.Proofs.Snapshot
import ScriptTrace.Proofs.StackMachine.Branches
import ScriptTrace.Proofs.StackMachine.Conditions
import ScriptTrace.Proofs.StackMachine.Depth
import ScriptTrace.Proofs.StackMachine.Guise
import ScriptTrace.Proofs.StackMachine.Listing
import ScriptTrace.Proofs.StackMachine.Positions
import ScriptTrace.Proofs.StackMachine.Ranges
import ScriptTrace.Proofs.StackMachine.Refit
import ScriptTrace.Proofs.StackMachine.Signers
import ScriptTrace.Proofs.StackMachine.Strides
import ScriptTrace.Proofs.StackMachine.Turns
import ScriptTrace.Proofs.Storage.Failures
import ScriptTrace.Proofs.Storage.Lawful
import ScriptTrace.Proofs.Storage.Ledger
import ScriptTrace.Proofs.Storage.Reliable
import ScriptTrace.Proofs.Storage.Room
import ScriptTrace.Proofs.Storage.Stream
import ScriptTrace.Proofs.Trace.Agreement
import ScriptTrace.Proofs.Trace.Announcements
import ScriptTrace.Proofs.Trace.Appending
import ScriptTrace.Proofs.Trace.Capture
import ScriptTrace.Proofs.Trace.Dispatches
import ScriptTrace.Proofs.Trace.Disposal
import ScriptTrace.Proofs.Trace.Emission
import ScriptTrace.Proofs.Trace.Likeness
import ScriptTrace.Proofs.Trace.Names
import ScriptTrace.Proofs.Trace.Pointers
import ScriptTrace.Proofs.Trace.Preservation
import ScriptTrace.Proofs.Trace.Rejections
import ScriptTrace.Proofs.Trace.Reuse
import ScriptTrace.Proofs.Trace.Room
import ScriptTrace.Proofs.Trace.Shape
import ScriptTrace.Proofs.Trace.Telling
import ScriptTrace.Proofs.Witness
import ScriptTrace.Record
import ScriptTrace.Script
import ScriptTrace.Script.Package
import ScriptTrace.Session
import ScriptTrace.Session.External
import ScriptTrace.Session.Journal
import ScriptTrace.Settings
import ScriptTrace.Snapshot
import ScriptTrace.StackMachine
import ScriptTrace.StackMachine.Assembler
import ScriptTrace.StackMachine.Instruction
import ScriptTrace.Storage
import ScriptTrace.Storage.Memory
import ScriptTrace.Storage.Node
import ScriptTrace.Storage.Path
import ScriptTrace.Storage.Pipe
import ScriptTrace.Storage.Tree
import ScriptTrace.Syscall
import ScriptTrace.Table
import ScriptTrace.Text.CharClass
import ScriptTrace.Text.Quoted
import ScriptTrace.Text.Utf8
import ScriptTrace.Trace.Engine
import ScriptTrace.Trace.Faulty
import ScriptTrace.Trace.Names
import ScriptTrace.Trace.Recorder
import ScriptTrace.Trace.Sink
import ScriptTrace.Witness
