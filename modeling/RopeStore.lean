import RopeStore.Arena
import RopeStore.Bench.Deferrals
import RopeStore.Bench.Nodes
import RopeStore.Bench.Report
import RopeStore.Bench.Run
import RopeStore.Bench.Samples
import RopeStore.Bench.Shelf
import RopeStore.Bench.Step
import RopeStore.Bench.Values
import RopeStore.Bench.Views
import RopeStore.Bench.World
import RopeStore.Deferral.Chain
import RopeStore.Deferral.Inspect
import RopeStore.Deferral.Queue
import RopeStore.Drill.Count
import RopeStore.Drill.Latch
import RopeStore.Drill.Threads
import RopeStore.Fault
import RopeStore.Heap.Bytes
import RopeStore.Heap.Create
import RopeStore.Heap.Forged
import RopeStore.Heap.Node
import RopeStore.Heap.Part
import RopeStore.Heap.Release
import RopeStore.Heap.Store
import RopeStore.Lock
import RopeStore.Log
import RopeStore.Random
import RopeStore.RefCount
import RopeStore.Sampling.Method
import RopeStore.Sampling.Record
import RopeStore.Sampling.Registry
import RopeStore.Sampling.Track
import RopeStore.SizeClass
import RopeStore.Table
import RopeStore.Text.CharRanges
import RopeStore.Text.ExtendingMark
import RopeStore.Text.Invisible
import RopeStore.Text.Quoted
import RopeStore.Trial.Agreement
import RopeStore.Trial.Generate
import RopeStore.Trial.Model
import RopeStore.Trial.Mutation
import RopeStore.Trial.Op
import RopeStore.Trial.Run
import RopeStore.Trial.TestCase
import RopeStore.Trial.Wire
import RopeStore.Value.Basic
import RopeStore.Value.Change
import RopeStore.Value.Order
import RopeStore.Value.Slot
import RopeStore.Proofs.Count
import RopeStore.Proofs.Count.Threads
import RopeStore.Proofs.Count.Immortal
import RopeStore.Proofs.Heap.Owned
import RopeStore.Proofs.Outcome
import RopeStore.Proofs.Heap.Balance
import RopeStore.Proofs.Heap.Create
import RopeStore.Proofs.Heap.Release
import RopeStore.Proofs.Heap.Content
import RopeStore.Proofs.Heap.Evolve
import RopeStore.Proofs.Value.Roots
import RopeStore.Proofs.Value.Steady
import RopeStore.Proofs.Client.Machine
import RopeStore.Proofs.Client.Lasting
import RopeStore.Proofs.Client.Immortal
import RopeStore.Proofs.Client.Keeps
import RopeStore.Proofs.Client.Ledger
import RopeStore.Proofs.Client.Deeds
import RopeStore.Proofs.Client.Shared
import RopeStore.Proofs.Value.Meaning
import RopeStore.Proofs.Value.Calls
import RopeStore.Proofs.Client.Values
import RopeStore.Proofs.Heap.Stable
import RopeStore.Proofs.Heap.Shape
import RopeStore.Proofs.Heap.Inside
import RopeStore.Proofs.Client.Inside
import RopeStore.Proofs.Heap.Buffers
import RopeStore.Proofs.Heap.Parts
import RopeStore.Proofs.Client.Parts
import RopeStore.Proofs.Client.Pieces
import RopeStore.Proofs.InStep
import RopeStore.Proofs.Value.Order
import RopeStore.Proofs.Value.Alike
import RopeStore.Proofs.Client.Alike
import RopeStore.Proofs.Deferral.Chain
import RopeStore.Proofs.Deferral.Sections
import RopeStore.Proofs.Deferral.Timeline
import RopeStore.Proofs.Deferral.Payloads
import RopeStore.Proofs.Deferral.Chronicle
import RopeStore.Proofs.Deferral.Session
import RopeStore.Proofs.Deferral.Sequence
import RopeStore.Proofs.Deferral.Threads
import RopeStore.Proofs.Deferral.Cascade
import RopeStore.Proofs.Heap.Views
import RopeStore.Proofs.Heap.Weight
import RopeStore.Proofs.Table
import RopeStore.Proofs.Trial.Mirror
import RopeStore.Proofs.Deferral.Visible
import RopeStore.Proofs.Trial.Steps
import RopeStore.Proofs.Trial.Nodes
import RopeStore.Proofs.Trial.Entries
import RopeStore.Proofs.Trial.Watch
import RopeStore.Proofs.Trial.Perform
import RopeStore.Proofs.Trial.Verdict
import RopeStore.Proofs.Trial.Lines
import RopeStore.Proofs.Trial.Reclaimed
import RopeStore.Proofs.Trial.Weight
import RopeStore.Proofs.Trial.Limit
import RopeStore.Proofs.Trial.Wire
import RopeStore.Proofs.Trial.TestCase
import RopeStore.Proofs.Deferral.Observers
import RopeStore.Proofs.Deferral.Shown
import RopeStore.Proofs.Deferral.Verdicts
import RopeStore.Proofs.Sampling.Track
import RopeStore.Proofs.Sampling.Sampler
import RopeStore.Proofs.Sampling.Records
import RopeStore.Proofs.Client.Slots
import RopeStore.Proofs.Sampling.Counters
import RopeStore.Proofs.Sampling.Tally
import RopeStore.Proofs.SizeClass.Codec
import RopeStore.Proofs.Value.Copies
import RopeStore.Proofs.Random
import RopeStore.Proofs.Trial.Fields
import RopeStore.Proofs.Trial.Mutation
import RopeStore.Proofs.Trial.Trim
import RopeStore.Proofs.Trial.Leftover
